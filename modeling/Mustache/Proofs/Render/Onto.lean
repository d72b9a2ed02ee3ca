import Mathlib.Data.List.Basic
import Mathlib.Data.List.TakeWhile
import Mustache.Proofs.Reindent
import Mustache.Proofs.Render.Parallel
import Mustache.Proofs.Render.Places
import Mustache.Proofs.Template.Joined

/-!
One render onto two outputs. Both grow by the same text, unless one of them ends in a newline, the
other does not, and a standalone block is met whose override comes to nothing but blanks: what is
left of it when it is moved is nothing, and whether a newline is missing is seen at what the output
held before. Main statement: `grown_run`.
-/

namespace Mustache

namespace Render

variable {σ α β γ : Type}

/-! ### Moved text -/

/-- The text is not empty and holds nothing but spaces and tabs. -/
def OnlyBlanks (body : String) : Prop :=
  body ≠ "" ∧ Text.leadingBlanks body.toList = body.toList

/-- Text of which nothing is left when it is moved was blanks that it lost as its own indent. -/
theorem onlyBlanks_of_move {body : String} {dedent : Bool} {indent : List Char} (hbody : body ≠ "")
    (h : Reindent.move (if dedent then Text.leadingBlanks body.toList else []) indent true
      body.toList = []) : dedent = true ∧ OnlyBlanks body := by
  have hnonempty : body.toList ≠ [] := fun hnil => hbody (String.toList_eq_nil_iff.mp hnil)
  unfold Reindent.move at h
  have hflatten := Text.flatten_splitLines body.toList
  cases hlines : Text.splitLines body.toList with
  | nil =>
    rw [hlines] at hflatten
    exact absurd hflatten.symm hnonempty
  | cons l ls =>
    rw [hlines] at h hflatten
    have hl : l ≠ [] := Text.ne_nil_of_mem_splitLines (hlines ▸ List.mem_cons_self)
    have hstrip := Reindent.eq_of_moveLine_eq_nil hl (List.append_eq_nil_iff.mp h).1
    cases dedent with
    | false => exact absurd hstrip hl
    | true =>
      refine ⟨rfl, hbody, ?_⟩
      have hstrip : l = Text.leadingBlanks body.toList := hstrip
      cases ls with
      | nil =>
        rw [← hstrip, ← hflatten]
        simp
      | cons l' ls =>
        obtain ⟨front, -, hended⟩ := Text.isEndedLine_of_splitLines (List.cons_ne_nil l' ls) hlines
        have hnewline : '\n' ∈ Text.leadingBlanks body.toList := by simp [← hstrip, hended]
        exact absurd hnewline (Text.newline_notMem_leadingBlanks body.toList)

/-- Both texts begin with the one they began with and go on alike. -/
def Grown (out out' : String) (a a' : String) : Prop := ∃ x, a = out ++ x ∧ a' = out' ++ x

theorem Grown.refl (out out' : String) : Grown out out' out out' :=
  ⟨"", String.append_empty.symm, String.append_empty.symm⟩

theorem Grown.append {out out' a a' : String} (h : Grown out out' a a') (x : String) :
    Grown out out' (a ++ x) (a' ++ x) := by
  obtain ⟨y, rfl, rfl⟩ := h
  exact ⟨y ++ x, String.append_assoc, String.append_assoc⟩

theorem Grown.trans {out out' a a' b b' : String} (h : Grown out out' a a')
    (h' : Grown a a' b b') : Grown out out' b b' := by
  obtain ⟨x, rfl, rfl⟩ := h'
  exact h.append x

theorem Grown.eq {a a' : String} (h : Grown "" "" a a') : a = a' := by
  obtain ⟨x, rfl, rfl⟩ := h
  rfl

theorem endsInNewline_append_of_ne {x : String} (hx : x ≠ "") (out : String) :
    Template.endsInNewline (out ++ x) = Template.endsInNewline x := by
  have hne : x.toList ≠ [] := fun hnil => hx (String.toList_eq_nil_iff.mp hnil)
  unfold Template.endsInNewline
  rw [String.toList_append, List.getLast?_append_of_ne_nil _ hne]

theorem Grown.endsInNewline {out out' a a' : String} (h : Grown out out' a a')
    (hends : Template.endsInNewline out = Template.endsInNewline out') :
    Template.endsInNewline a = Template.endsInNewline a' := by
  obtain ⟨x, rfl, rfl⟩ := h
  by_cases hx : x = ""
  · rw [hx, String.append_empty, String.append_empty, hends]
  · rw [endsInNewline_append_of_ne hx, endsInNewline_append_of_ne hx]

/-- An override is put in its place in the same way on two outputs that both end in a newline or
both do not, and on any two unless a standalone block has only blanks to lose. -/
theorem grown_placeOverride {site : Option String} {dedent : Bool} {indent body out out' : String}
    (h : Template.endsInNewline out = Template.endsInNewline out' ∨
      ¬ (site.isSome ∧ dedent = true ∧ OnlyBlanks body)) :
    Grown out out' (placeOverride site dedent indent body out)
      (placeOverride site dedent indent body out') := by
  unfold placeOverride
  cases site with
  | none => exact (Grown.refl out out').append _
  | some site =>
    dsimp only
    generalize hmoved : String.ofList (Reindent.move
      (if dedent then Text.leadingBlanks body.toList else []) (indent ++ site).toList true
      body.toList) = moved
    by_cases hbody : body.toList.isEmpty
    · rw [if_pos (Or.inl hbody), if_pos (Or.inl hbody)]
      exact (Grown.refl out out').append moved
    · have hends : Template.endsInNewline (out ++ moved) =
          Template.endsInNewline (out' ++ moved) := by
        by_cases hempty : moved = ""
        · refine ((Grown.refl out out').append moved).endsInNewline
            (h.resolve_right fun hblank => ?_)
          have hnil : Reindent.move (if dedent then Text.leadingBlanks body.toList else [])
              (indent ++ site).toList true body.toList = [] := by
            rw [← String.toList_ofList (l := Reindent.move _ _ _ _), hmoved, hempty]
            rfl
          have hne : body ≠ "" := by
            rintro rfl
            exact hbody rfl
          exact hblank ⟨rfl, onlyBlanks_of_move hne hnil⟩
        · rw [endsInNewline_append_of_ne hempty, endsInNewline_append_of_ne hempty]
      rw [hends]
      split
      · exact (Grown.refl out out').append moved
      · exact ((Grown.refl out out').append moved).append "\n"

/-! ### Marks without an indent -/

section

variable (e : Engine σ) (deeper : Renderer σ) (t : Template)

mutual

theorem renderStep_unmarked : ∀ step : Step,
    renderStep e deeper t "" step.unmarked = renderStep e deeper t "" step
  | .text text lineStart => by
    funext out
    rw [Step.unmarked, renderStep, renderStep, ite_self, ite_self]
  | .interpolation name escape strict lineStart => by
    funext out
    rw [Step.unmarked, renderStep, renderStep]
    simp only [ite_self]
  | .sectionStep name strict body delimiters steps => by
    funext out
    rw [Step.unmarked, renderStep, renderStep, renderSteps_unmarked steps]
  | .inverted name steps => by
    funext out
    rw [Step.unmarked, renderStep, renderStep, renderSteps_unmarked steps]
  | .partialStep name own => by rw [Step.unmarked]
  | .parent name own overrides => by rw [Step.unmarked]
  | .block name site steps => by
    funext out
    rw [Step.unmarked, renderStep, renderStep, renderSteps_unmarked steps]

/-- Without an indent, it makes no difference which pieces begin a line. -/
theorem renderSteps_unmarked : ∀ steps : List Step,
    renderSteps e deeper t "" (Step.allUnmarked steps) = renderSteps e deeper t "" steps
  | [] => by rw [Step.allUnmarked]
  | step :: steps => by
    funext out
    rw [Step.allUnmarked, renderSteps, renderSteps, renderStep_unmarked step,
      renderSteps_unmarked steps]

end

end

/-! ### Steps onto two outputs -/

/-- From one state, both end in one state, either with values related by `A` or with one error. -/
abbrev EndAs (A : α → α → Prop) (r r' : EStateM.Result Error (State σ) α) : Prop :=
  EndAlike Eq Eq A r r'

section

variable {A : α → α → Prop} {B : β → β → Prop} {act act' : RenderM σ α} {s : State σ}

theorem endAs_refl (r : EStateM.Result Error (State σ) α) : EndAs Eq r r := by
  cases r with
  | ok a s => exact ⟨rfl, rfl⟩
  | error err s => exact ⟨rfl, rfl⟩

theorem endAs_mono {A' : α → α → Prop} {r r' : EStateM.Result Error (State σ) α}
    (hA : ∀ {a a'}, A a a' → A' a a') (h : EndAs A r r') : EndAs A' r r' := by
  cases r <;> cases r'
  · exact ⟨h.1, hA h.2⟩
  · exact h.elim
  · exact h.elim
  · exact h

/-- What follows may know how the first run went. -/
theorem endAs_bind {next next' : α → RenderM σ β} (hact : EndAs A (act s) (act' s))
    (hnext : ∀ a a' t, act s = .ok a t → A a a' → EndAs B (next a t) (next' a' t)) :
    EndAs B ((act >>= next) s) ((act' >>= next') s) := by
  cases hrun : act s <;> cases hrun' : act' s <;> rw [hrun, hrun'] at hact
  · obtain ⟨rfl, ha⟩ := hact
    rw [bind_of_ok next hrun, bind_of_ok next' hrun']
    exact hnext _ _ _ hrun ha
  · exact hact.elim
  · exact hact.elim
  · rw [bind_of_error next hrun, bind_of_error next' hrun']
    exact hact

theorem endAs_bind_same {next next' : α → RenderM σ β}
    (hnext : ∀ a t, act s = .ok a t → EndAs B (next a t) (next' a t)) :
    EndAs B ((act >>= next) s) ((act >>= next') s) := by
  refine endAs_bind (endAs_refl (act s)) ?_
  rintro a _ t hrun rfl
  exact hnext a t hrun

theorem endAs_between {before back : State σ → State σ}
    (h : EndAs A (act (before s)) (act' (before s))) :
    EndAs A (between before back act s) (between before back act' s) := by
  unfold between
  cases hrun : act (before s) <;> cases hrun' : act' (before s) <;> rw [hrun, hrun'] at h
  · exact ⟨congrArg back h.1, h.2⟩
  · exact h.elim
  · exact h.elim
  · exact ⟨congrArg back h.1, h.2⟩

theorem endAs_entering {limit : Nat} {name : String}
    (h : s.depth < limit → EndAs A (act s.entered) (act' s.entered)) :
    EndAs A (entering limit name act s) (entering limit name act' s) := by
  by_cases hdepth : s.depth < limit
  · rw [entering_of_lt hdepth, entering_of_lt hdepth]
    exact endAs_between (h hdepth)
  · have hle := Nat.le_of_not_lt hdepth
    rw [entering_of_le hle, entering_of_le hle]
    exact ⟨rfl, rfl⟩

theorem endAs_foldlM {f : String → γ → RenderM σ String} {xs : List γ} {out out' : String}
    (hf : ∀ before x after a a' t, xs = before ++ x :: after → before.foldlM f out s = .ok a t →
      Grown out out' a a' → EndAs (Grown a a') (f a x t) (f a' x t)) :
    EndAs (Grown out out') (xs.foldlM f out s) (xs.foldlM f out' s) := by
  induction xs generalizing out out' s with
  | nil => exact ⟨rfl, .refl out out'⟩
  | cons x xs ih =>
    rw [List.foldlM_cons, List.foldlM_cons]
    refine endAs_bind (hf [] x xs out out' s rfl rfl (.refl out out')) ?_
    intro a a' t hrun ha
    have hrest : EndAs (Grown a a') (xs.foldlM f a t) (xs.foldlM f a' t) := by
      refine ih fun before y after b b' u hxs hbefore hb => ?_
      refine hf (x :: before) y after b b' u (by rw [hxs, List.cons_append]) ?_ (ha.trans hb)
      rw [List.foldlM_cons, bind_of_ok _ hrun, hbefore]
    exact endAs_mono ha.trans hrest

end

/-! ### Blanks that are moved -/

section

variable (e : Engine σ)

/-- The first step is a standalone block, and its override is moved and comes to only blanks. -/
inductive Place.MovesBlanks : Place σ → Prop
  | intro {n t indent name site inner steps out s o body s'}
      (hfound : findOverride? s.overrides name = some o) (hdedent : o.dedent = true)
      (hbody : entering e.config.maxDepth o.name (renderLevels e n t "" o.steps "") s =
        .ok body s')
      (hblank : OnlyBlanks body) :
      MovesBlanks ⟨n, t, indent, .block name (some site) inner :: steps, out, s⟩

/-- The place does not notice that there is another output: either this one ends in a newline just
if its own does, or the render comes to no blanks that are moved. -/
def Place.Unaware (p : Place σ) (out' : String) : Prop :=
  Template.endsInNewline p.out = Template.endsInNewline out' ∨
    ∀ q, Relation.ReflTransGen (Advance e) p q → ¬ q.MovesBlanks e

end

variable {e : Engine σ} {n : Nat}

theorem Place.Unaware.advance {p q : Place σ} {out' a' : String} (h : p.Unaware e out')
    (hadvance : Advance e p q) (hgrown : Grown p.out out' q.out a') : q.Unaware e a' :=
  h.imp hgrown.endsInNewline fun hnever r hreaches => hnever r (.head hadvance hreaches)

/-- Renders with `n` levels further down put the same text onto any two outputs of which they do
not notice which one they have. -/
def GrowsAlike (e : Engine σ) (n : Nat) : Prop :=
  ∀ {t : Template} {indent : String} {steps : List Step} {out out' : String} {s : State σ},
    Place.Unaware e ⟨n, t, indent, steps, out, s⟩ out' →
    EndAs (Grown out out') (renderSteps e (renderLevels e n) t indent steps out s)
      (renderSteps e (renderLevels e n) t indent steps out' s)

section

variable (hdeeper : ∀ k, n = k + 1 → GrowsAlike e k) {t : Template} {indent out out' : String}
  {rest : List Step} {s : State σ}

include hdeeper

theorem grown_deeper {steps : List Step}
    (h : ∀ k, n = k + 1 → Place.Unaware e ⟨k, t, indent, steps, out, s⟩ out') :
    EndAs (Grown out out') (renderLevels e n t indent steps out s)
      (renderLevels e n t indent steps out' s) := by
  cases n with
  | zero => exact ⟨rfl, rfl⟩
  | succ k => exact hdeeper k rfl (h k rfl)

theorem grown_renderOverride {name : String} {site : Option String} {inner : List Step}
    {o : Override Step} (hfound : findOverride? s.overrides name = some o)
    (h : Place.Unaware e ⟨n, t, indent, .block name site inner :: rest, out, s⟩ out') :
    EndAs (Grown out out') (renderOverride e (renderLevels e n) t indent site o out s)
      (renderOverride e (renderLevels e n) t indent site o out' s) := by
  unfold renderOverride
  by_cases hplace : site.isNone ∧ !o.dedent
  · rw [if_pos hplace, if_pos hplace]
    refine endAs_entering fun hdepth => grown_deeper hdeeper ?_
    rintro k rfl
    exact h.advance (.override hfound hplace hdepth) (.refl out out')
  · rw [if_neg hplace, if_neg hplace]
    refine endAs_bind_same fun body t' hbody => ⟨rfl, grown_placeOverride ?_⟩
    refine h.imp_right fun hnever => ?_
    rintro ⟨hsite, hdedent, hblank⟩
    obtain ⟨site, rfl⟩ := Option.isSome_iff_exists.mp hsite
    exact hnever _ .refl (.intro hfound hdedent hbody hblank)

theorem grown_partialStep (name : PartialName) (own : Option String)
    (h : Place.Unaware e ⟨n, t, indent, .partialStep name own :: rest, out, s⟩ out') :
    EndAs (Grown out out')
      (renderStep e (renderLevels e n) t indent (.partialStep name own) out s)
      (renderStep e (renderLevels e n) t indent (.partialStep name own) out' s) := by
  rw [renderStep, renderStep]
  refine endAs_bind_same fun named s₁ hname => endAs_bind_same fun found s₂ hload => ?_
  cases found with
  | none => exact ⟨rfl, .refl out out'⟩
  | some p =>
    refine endAs_entering fun hdepth => grown_deeper hdeeper ?_
    rintro k rfl
    exact h.advance (.partialStep hname hload hdepth) (.refl out out')

theorem grown_parent (name : String) (own : Option String) (overrides : List (Override Step))
    (h : Place.Unaware e ⟨n, t, indent, .parent name own overrides :: rest, out, s⟩ out') :
    EndAs (Grown out out')
      (renderStep e (renderLevels e n) t indent (.parent name own overrides) out s)
      (renderStep e (renderLevels e n) t indent (.parent name own overrides) out' s) := by
  rw [renderStep, renderStep]
  refine endAs_bind_same fun found s₁ hload => ?_
  cases found with
  | none => exact ⟨rfl, .refl out out'⟩
  | some p =>
    refine endAs_entering fun hdepth => endAs_between (grown_deeper hdeeper ?_)
    rintro k rfl
    exact h.advance (.parent hload hdepth) (.refl out out')

end

/-- Whatever the outputs are, the body of a section puts out the same in each scope. -/
theorem grown_section {t : Template} {indent out out' : String} {inner rest : List Step}
    {s : State σ} (name : Name) (strict : Bool) (body : String) (delimiters : Delimiters)
    (hinner : ∀ {out out' : String} {s : State σ},
      Place.Unaware e ⟨n, t, indent, inner, out, s⟩ out' →
      EndAs (Grown out out') (renderSteps e (renderLevels e n) t indent inner out s)
        (renderSteps e (renderLevels e n) t indent inner out' s))
    (h : Place.Unaware e
      ⟨n, t, indent, .sectionStep name strict body delimiters inner :: rest, out, s⟩ out') :
    EndAs (Grown out out')
      (renderStep e (renderLevels e n) t indent (.sectionStep name strict body delimiters inner)
        out s)
      (renderStep e (renderLevels e n) t indent (.sectionStep name strict body delimiters inner)
        out' s) := by
  rw [sectionStep_eq, sectionStep_eq]
  refine endAs_bind_same fun v s₁ hvalue => ?_
  split
  · refine endAs_bind_same fun result s₂ _ => endAs_bind_same fun text s₃ _ => ?_
    exact ⟨rfl, (Grown.refl out out').append text⟩
  · rename_i hplain
    refine endAs_foldlM fun before scope after a a' s₂ hscopes hbefore ha => ?_
    exact endAs_between (hinner (h.advance (.body hvalue hplain hscopes hbefore) ha))

mutual

theorem grown_renderStep (hdeeper : ∀ k, n = k + 1 → GrowsAlike e k) {t : Template}
    {indent out out' : String} {rest : List Step} {s : State σ} (step : Step)
    (h : Place.Unaware e ⟨n, t, indent, step :: rest, out, s⟩ out') :
    EndAs (Grown out out') (renderStep e (renderLevels e n) t indent step out s)
      (renderStep e (renderLevels e n) t indent step out' s) := by
  cases step with
  | text text lineStart =>
    rw [renderStep, renderStep]
    exact ⟨rfl, ((Grown.refl out out').append _).append _⟩
  | interpolation name escape strict lineStart =>
    rw [renderStep, renderStep]
    refine endAs_bind_same fun text s₁ _ => ?_
    exact ⟨rfl, ((Grown.refl out out').append _).append _⟩
  | sectionStep name strict body delimiters inner =>
    exact grown_section name strict body delimiters (grown_renderSteps hdeeper inner) h
  | inverted name inner =>
    rw [inverted_eq, inverted_eq]
    refine endAs_bind_same fun v s₁ hvalue => ?_
    cases htruthy : v.truthy with
    | true => exact ⟨rfl, .refl out out'⟩
    | false =>
      exact grown_renderSteps hdeeper inner
        (h.advance (.inverted hvalue htruthy) (.refl out out'))
  | partialStep name own => exact grown_partialStep hdeeper name own h
  | parent name own overrides => exact grown_parent hdeeper name own overrides h
  | block name site inner =>
    rw [renderStep, renderStep, bind_of_ok _ (get_eq s), bind_of_ok _ (get_eq s)]
    cases hfound : findOverride? s.overrides name with
    | none => exact grown_renderSteps hdeeper inner (h.advance (.block hfound) (.refl out out'))
    | some o => exact grown_renderOverride hdeeper hfound h

theorem grown_renderSteps (hdeeper : ∀ k, n = k + 1 → GrowsAlike e k) {t : Template}
    {indent : String} (steps : List Step) {out out' : String} {s : State σ}
    (h : Place.Unaware e ⟨n, t, indent, steps, out, s⟩ out') :
    EndAs (Grown out out') (renderSteps e (renderLevels e n) t indent steps out s)
      (renderSteps e (renderLevels e n) t indent steps out' s) := by
  cases steps with
  | nil => exact ⟨rfl, .refl out out'⟩
  | cons step steps =>
    rw [renderSteps, renderSteps]
    refine endAs_bind (grown_renderStep hdeeper step h) fun a a' s₁ hstep ha => ?_
    exact endAs_mono ha.trans (grown_renderSteps hdeeper steps (h.advance (.next hstep) ha))

end

theorem growsAlike (e : Engine σ) (n : Nat) : GrowsAlike e n := by
  induction n with
  | zero => exact grown_renderSteps (fun k hk => absurd hk.symm (Nat.succ_ne_zero k)) _
  | succ n ih =>
    refine grown_renderSteps ?_ _
    rintro k hk
    obtain rfl := Nat.succ.inj hk
    exact ih

/-- **What the steps at a place put out, they put onto any other output too**, from the same state
and to the same state, unless they notice that it is another. -/
theorem grown_run {p : Place σ} {out' : String} (h : p.Unaware e out') :
    EndAs (Grown p.out out') (p.run e) (Place.run e { p with out := out' }) :=
  growsAlike e p.levels h

/-! ### Going on from another output -/

theorem exists_of_endAs {A : α → α → Prop} {r : EStateM.Result Error (State σ) α} {a' : α}
    {t : State σ} (h : EndAs A r (.ok a' t)) : ∃ a, r = .ok a t ∧ A a a' := by
  cases r with
  | ok a t' =>
    obtain ⟨rfl, ha⟩ := h
    exact ⟨a, rfl, ha⟩
  | error err t' => exact h.elim

/-- From another output that it does not notice, a render goes on to the same places but for what
their outputs are. -/
theorem advance_onto {p q' : Place σ} {out' : String} (hunaware : p.Unaware e out')
    (h : Advance e { p with out := out' } q') :
    ∃ q, Advance e p q ∧ q' = { q with out := q'.out } := by
  have hsteps : ∀ n t indent steps out s out', Place.Unaware e ⟨n, t, indent, steps, out, s⟩ out' →
      EndAs (Grown out out') (renderSteps e (renderLevels e n) t indent steps out s)
        (renderSteps e (renderLevels e n) t indent steps out' s) :=
    fun _ _ _ _ _ _ _ h => growsAlike e _ h
  obtain ⟨n, t, indent, steps, out, s⟩ := p
  change Advance e ⟨n, t, indent, steps, out', s⟩ q' at h
  cases h with
  | @next _ _ _ step rest _ _ _ _ hrun =>
    have hgrown := grown_renderStep (fun k _ => growsAlike e k) step hunaware
    rw [hrun] at hgrown
    obtain ⟨a, hrun', -⟩ := exists_of_endAs hgrown
    exact ⟨_, .next hrun', rfl⟩
  | called hresolve hcalled htext => exact ⟨_, .called hresolve hcalled htext, rfl⟩
  | answered hvalue hcall htext => exact ⟨_, .answered hvalue hcall htext, rfl⟩
  | @body _ _ _ _ _ _ _ inner rest _ _ _ s₁ before scope after _ _ hvalue hplain hscopes hbefore =>
    -- the scopes in front of this one put out the same on both outputs
    have hgrown : EndAs (Grown out out')
        (before.foldlM (fun out scope =>
          inScope scope (renderSteps e (renderLevels e n) t indent inner out)) out s₁)
        (before.foldlM (fun out scope =>
          inScope scope (renderSteps e (renderLevels e n) t indent inner out)) out' s₁) := by
      refine endAs_foldlM fun first x more a a' s₂ hsplit hfirst ha => endAs_between ?_
      rw [hsplit, List.append_assoc, List.cons_append] at hscopes
      exact hsteps _ _ _ _ _ _ _ (hunaware.advance (.body hvalue hplain hscopes hfirst) ha)
    rw [hbefore] at hgrown
    obtain ⟨a, hbefore', -⟩ := exists_of_endAs hgrown
    exact ⟨_, .body hvalue hplain hscopes hbefore', rfl⟩
  | inverted hvalue hfalsy => exact ⟨_, .inverted hvalue hfalsy, rfl⟩
  | partialStep hname hload hdepth => exact ⟨_, .partialStep hname hload hdepth, rfl⟩
  | parent hload hdepth => exact ⟨_, .parent hload hdepth, rfl⟩
  | block hnone => exact ⟨_, .block hnone, rfl⟩
  | override hfound hplace hdepth => exact ⟨_, .override hfound hplace hdepth, rfl⟩
  | moved hfound hplace hdepth => exact ⟨_, .moved hfound hplace hdepth, rfl⟩

/-- The render from this place comes to no blanks that are moved. -/
def Place.Calm (e : Engine σ) (p : Place σ) : Prop :=
  ∀ q, Relation.ReflTransGen (Advance e) p q → ¬ q.MovesBlanks e

theorem Place.Calm.reaches {p q : Place σ} (h : p.Calm e)
    (hreaches : Relation.ReflTransGen (Advance e) p q) : q.Calm e :=
  fun r hr => h r (hreaches.trans hr)

/-- From another output, a render without moved blanks comes to the same places. -/
theorem Place.Calm.reaches_onto {p q' : Place σ} {out' : String} (h : p.Calm e)
    (hreaches : Relation.ReflTransGen (Advance e) { p with out := out' } q') :
    ∃ q, Relation.ReflTransGen (Advance e) p q ∧ q' = { q with out := q'.out } := by
  induction hreaches with
  | refl => exact ⟨p, .refl, rfl⟩
  | tail _ hadvance ih =>
    obtain ⟨q, hq, heq⟩ := ih
    rw [heq] at hadvance
    obtain ⟨r, hr, heq'⟩ := advance_onto (.inr (h.reaches hq)) hadvance
    exact ⟨r, hq.tail hr, heq'⟩

theorem Place.Calm.onto {p : Place σ} (h : p.Calm e) (out' : String) :
    Place.Calm e { p with out := out' } := by
  intro q' hreaches hblanks
  obtain ⟨q, hq, heq⟩ := h.reaches_onto hreaches
  refine h q hq ?_
  rw [heq] at hblanks
  obtain ⟨n, t, indent, steps, out, s⟩ := q
  cases hblanks with
  | intro hfound hdedent hbody hblank => exact .intro hfound hdedent hbody hblank

end Render

end Mustache
