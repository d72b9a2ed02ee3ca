import Mustache.Proofs.Engine.Compile
import Mustache.Proofs.Render.Restore

/-!
Histories of an engine: its operations, carried out one after the other on a store, those that
fail included. A property of stores that compiling keeps, and that is about registered templates
alone, holds after every history. Main statement: `Invariant.perform`.
-/

namespace Mustache

namespace Engine

variable {σ α β : Type}

/-- What may be done with an engine, or to the world around it. -/
inductive Operation (σ : Type)
  | render (name : String) (data : Value)
  | renderTemplate (t : Template) (data : Value)
  | compile (source : String)
  | loadTemplate (name : String)
  | loadPartial (name : String)
  | loadLambda (text : String) (delimiters : Option Delimiters)
  | addHelper (name : String) (v : Value)
  | removeHelper (name : String)
  | clearCache
  /-- A change of the world, such as an edit of what a loader holds. -/
  | edit (f : σ → σ)

/-- The store after an operation, a failed one included. -/
def Operation.leaves (e : Engine σ) : Operation σ → Store σ → Store σ
  | .render name data => left (e.render name data)
  | .renderTemplate t data => left (e.renderTemplate t data)
  | .compile source => left (e.compile source)
  | .loadTemplate name => left (e.loadTemplate name)
  | .loadPartial name => left (e.loadPartial name)
  | .loadLambda text delimiters => left (e.loadLambda text delimiters)
  | .addHelper name v => left (Engine.addHelper name v)
  | .removeHelper name => left (Engine.removeHelper name)
  | .clearCache => left e.clearCache
  | .edit f => fun s => { s with world := f s.world }

/-- The store after some operations. -/
def perform (e : Engine σ) (history : List (Operation σ)) (s : Store σ) : Store σ :=
  history.foldl (fun s op => op.leaves e s) s

@[simp] theorem perform_nil (e : Engine σ) (s : Store σ) : e.perform [] s = s := rfl

@[simp] theorem perform_cons (e : Engine σ) (op : Operation σ) (history : List (Operation σ))
    (s : Store σ) : e.perform (op :: history) s = e.perform history (op.leaves e s) := rfl

/-- The store of an engine that has compiled nothing yet. -/
def freshStore (helpers : Table Value) (w : σ) : Store σ := ⟨Registry.empty, helpers, w⟩

/-- The stores that an engine comes to. -/
def Reachable (e : Engine σ) (s : Store σ) : Prop :=
  ∃ history helpers w, s = e.perform history (freshStore helpers w)

/-! ### What the operations leave -/

theorem left_bind (op : EStateM Error β α) (next : α → EStateM Error β γ) (s : β) :
    left (op >>= next) s = match result op s with
      | .ok a => left (next a) (left op s)
      | .error _ => left op s := by
  change left (EStateM.bind op next) s = _
  unfold left result EStateM.bind
  cases op s <;> rfl

/-- The state that a render starts in. -/
def startState (s : Store σ) (data : Value) : Render.State σ :=
  ⟨s, startScopes s.helpers data, [], 0⟩

theorem forall_startScopes {Q : Value → Prop} {helpers : Table Value} {data : Value}
    (hdata : Q data) (hhelpers : Q (.map helpers)) : ∀ v ∈ startScopes helpers data, Q v := by
  have houter : ∀ v ∈ (if helpers.isEmpty then [] else [Value.map helpers]), Q v := by
    intro v hv
    split at hv
    · cases hv
    · rwa [List.mem_singleton.mp hv]
  unfold startScopes
  dsimp only
  split
  · exact houter
  · exact List.forall_mem_cons.mpr ⟨hdata, houter⟩

theorem renderTemplate_of_ok {e : Engine σ} {t : Template} {data : Value} {s : Store σ}
    {out : String} {r : Render.State σ}
    (h : Render.renderLevels e (e.config.maxDepth + 1) t "" t.steps "" (startState s data) =
      .ok out r) : e.renderTemplate t data s = .ok out r.store := by
  unfold renderTemplate
  dsimp only
  rw [← startState, h]

theorem renderTemplate_of_error {e : Engine σ} {t : Template} {data : Value} {s : Store σ}
    {err : Error} {r : Render.State σ}
    (h : Render.renderLevels e (e.config.maxDepth + 1) t "" t.steps "" (startState s data) =
      .error err r) : e.renderTemplate t data s = .error err r.store := by
  unfold renderTemplate
  dsimp only
  rw [← startState, h]

theorem renderTemplate_eq_ok_iff {e : Engine σ} {t : Template} {data : Value} {s s' : Store σ}
    {out : String} : e.renderTemplate t data s = .ok out s' ↔ ∃ r,
      Render.renderLevels e (e.config.maxDepth + 1) t "" t.steps "" (startState s data) =
        .ok out r ∧ r.store = s' := by
  constructor
  · intro h
    cases hrun : Render.renderLevels e (e.config.maxDepth + 1) t "" t.steps ""
        (startState s data) with
    | ok out' r =>
      obtain ⟨rfl, rfl⟩ := EStateM.Result.ok.inj ((renderTemplate_of_ok hrun).symm.trans h)
      exact ⟨r, rfl, rfl⟩
    | error err r => exact nomatch (renderTemplate_of_error hrun).symm.trans h
  · rintro ⟨r, hrun, rfl⟩
    exact renderTemplate_of_ok hrun

theorem left_renderTemplate (e : Engine σ) (t : Template) (data : Value) (s : Store σ) :
    left (e.renderTemplate t data) s =
      (Render.after (Render.renderLevels e (e.config.maxDepth + 1) t "" t.steps "")
        (startState s data)).store := by
  cases h : Render.renderLevels e (e.config.maxDepth + 1) t "" t.steps "" (startState s data) with
  | ok out r => rw [left_of_ok (renderTemplate_of_ok h), Render.after_of_ok h]
  | error err r => rw [left_of_error (renderTemplate_of_error h), Render.after_of_error h]

theorem helper_of_none {name : String} {s : Store σ} (h : s.helpers.find? name = none) :
    helper name s = .error (.unknownHelper name) s := by
  unfold helper
  simp only [get_bind, h]
  rfl

theorem helper_of_some {name : String} {v : Value} {s : Store σ}
    (h : s.helpers.find? name = some v) : helper name s = .ok v s := by
  unfold helper
  simp only [get_bind, h]
  rfl

theorem left_removeHelper (name : String) (s : Store σ) :
    ∃ helpers, left (removeHelper name) s = { s with helpers } := by
  unfold removeHelper
  rw [left_bind]
  cases h : s.helpers.find? name with
  | none =>
    rw [result_of_error (helper_of_none h), left_of_error (helper_of_none h)]
    exact ⟨s.helpers, rfl⟩
  | some v =>
    rw [result_of_ok (helper_of_some h), left_of_ok (helper_of_some h)]
    exact ⟨s.helpers.erase name, rfl⟩

theorem left_clearCache (e : Engine σ) (s : Store σ) :
    left e.clearCache s = ⟨s.registry.clear, s.helpers, left e.cache.clear s.world⟩ := by
  unfold clearCache
  rw [left_bind]
  change left (onWorld e.cache.clear >>= _) { s with registry := s.registry.clear } = _
  rw [left_bind, result_of_ok (onWorld_eq _ _), left_of_ok (onWorld_eq _ _)]
  cases result e.cache.clear s.world <;> rfl

/-! ### Invariants -/

/-- A property of stores that compiling keeps and that the world has no part in. -/
structure Lasting (e : Engine σ) (P : Store σ → Prop) : Prop where
  compiles : ∀ {s : Store σ} (cache : Cache σ) (name source : String), P s →
    P (left (e.compileWith cache name source) s)
  world : ∀ {s : Store σ} (w : σ), P s → P { s with world := w }

/-- A property of stores that compiling keeps and that neither helpers nor the world have a part
in. -/
structure Invariant (e : Engine σ) (P : Store σ → Prop) : Prop where
  compiles : ∀ {s : Store σ} (cache : Cache σ) (name source : String), P s →
    P (left (e.compileWith cache name source) s)
  clears : ∀ {s : Store σ}, P s → P { s with registry := s.registry.clear }
  surroundings : ∀ {s : Store σ} (helpers : Table Value) (w : σ), P s → P ⟨s.registry, helpers, w⟩

end Engine

namespace Render

/-- However `act` ends, the engine's store has `P` after it if it had it before. -/
def Keeps (P : Engine.Store σ → Prop) (act : RenderM σ α) : Prop :=
  ∀ s, P s.store → P (after act s).store

theorem Keeps.bind {P : Engine.Store σ → Prop} {act : RenderM σ α} {next : α → RenderM σ β}
    (hact : Keeps P act) (hnext : ∀ a, Keeps P (next a)) : Keeps P (act >>= next) := by
  intro s hs
  have h := hact s hs
  rw [after_bind]
  cases hrun : act s with
  | ok a s' =>
    rw [after_of_ok hrun] at h
    exact hnext a s' h
  | error err s' =>
    rw [after_of_error hrun] at h
    exact h

theorem Keeps.attempt {P : Engine.Store σ → Prop} {act : RenderM σ α}
    {next : Except Error α → σ → RenderM σ β} {w : σ}
    (hworld : ∀ s : Engine.Store σ, P s → P { s with world := w }) (hact : Keeps P act)
    (hnext : ∀ r w, Keeps P (next r w)) : Keeps P (attempt w act next) := by
  intro s hs
  have h := hact (setWorld w s) (hworld s.store hs)
  rw [after_attempt]
  cases hrun : act (setWorld w s) with
  | ok a s' =>
    rw [after_of_ok hrun] at h
    exact hnext (.ok a) _ s' h
  | error err s' =>
    rw [after_of_error hrun] at h
    exact hnext (.error err) _ s' h

theorem Keeps.between {P : Engine.Store σ → Prop} {act : RenderM σ α}
    {before back : State σ → State σ} (hbefore : ∀ s, (before s).store = s.store)
    (hback : ∀ s, (back s).store = s.store) (hact : Keeps P act) : Keeps P (between before back act) := by
  intro s hs
  rw [after_between, hback]
  exact hact (before s) (by rwa [hbefore])

theorem Keeps.entering {P : Engine.Store σ → Prop} {act : RenderM σ α} (limit : Nat) (name : String)
    (hact : Keeps P act) : Keeps P (entering limit name act) := by
  refine Keeps.bind (fun _ hs => hs) fun s => ?_
  split
  · exact hact.between (fun _ => rfl) fun _ => rfl
  · exact fun _ hs => hs

theorem keeps_onStore {P : Engine.Store σ → Prop} {op : Engine.EngineM σ α}
    (h : ∀ s, P s → P (Engine.left op s)) : Keeps P (onStore op) := by
  intro s hs
  have hop := h s.store hs
  unfold Engine.left at hop
  unfold after onStore
  cases hrun : op s.store with
  | ok a store => simpa [hrun] using hop
  | error err store => simpa [hrun] using hop

theorem keeps_callWorld {P : Engine.Store σ → Prop}
    (hworld : ∀ (s : Engine.Store σ) w, P s → P { s with world := w })
    (f : σ → Except Error α × σ) : Keeps P (callWorld f) := by
  intro s hs
  unfold after callWorld
  cases (f s.store.world).1 with
  | ok a => exact hworld _ _ hs
  | error err => exact hworld _ _ hs

end Render

namespace Engine.Lasting

open Render

variable {e : Engine σ} {P : Store σ → Prop} (h : Lasting e P)

include h

theorem loadPartial (name : String) (s : Store σ) (hs : P s) : P (left (e.loadPartial name) s) := by
  rcases left_loadPartial e name s with heq | ⟨source, -, heq⟩
  · rwa [heq]
  · rw [heq]
    exact h.compiles e.cache name source hs

theorem loadTemplate (name : String) (s : Store σ) (hs : P s) :
    P (left (e.loadTemplate name) s) := by
  cases hsource : e.loader s.world name with
  | error err => rwa [left_of_error (loadTemplate_of_error hsource)]
  | ok source =>
    rw [left_congr (loadTemplate_of_source hsource)]
    exact h.compiles e.cache _ source hs

theorem loadLambda (text : String) (delimiters : Option Delimiters) (s : Store σ) (hs : P s) :
    P (left (e.loadLambda text delimiters) s) :=
  h.compiles _ "lambda" _ hs

theorem compositional : Compositional e fun _ => Keeps P where
  pure _ _ hs := hs
  throw _ _ hs := hs
  bind := Keeps.bind
  get _ hs := hs
  loadPartial name := keeps_onStore (h.loadPartial name)
  loadLambda text delimiters := keeps_onStore (h.loadLambda text delimiters)
  callWorld := keeps_callWorld fun _ w => h.world w
  attempt w := Keeps.attempt fun _ => h.world w
  inScope _ hact := hact.between (fun _ => rfl) fun _ => rfl
  withOverrides _ hact := hact.between (fun _ => rfl) fun _ => rfl
  entering name := Keeps.entering _ name

theorem renderTemplate (t : Template) (data : Value) (s : Store σ) (hs : P s) :
    P (left (e.renderTemplate t data) s) := by
  rw [left_renderTemplate]
  exact h.compositional.renderLevels _ t "" t.steps "" _ hs

theorem render (name : String) (data : Value) (s : Store σ) (hs : P s) :
    P (left (e.render name data) s) := by
  have hload := h.loadTemplate name s hs
  unfold Engine.render
  rw [left_bind]
  cases result (e.loadTemplate name) s with
  | ok t => exact h.renderTemplate t data _ hload
  | error err => exact hload

end Engine.Lasting

namespace Engine

theorem lasting_helpers (e : Engine σ) (helpers : Table Value) :
    Lasting e fun s => s.helpers = helpers where
  compiles {s} cache name source hs :=
    (helpers_of_compiling (compiling_compileWith e cache name source s)).trans hs
  world _ hs := hs

end Engine

namespace Engine.Invariant

variable {e : Engine σ} {P : Store σ → Prop} (h : Invariant e P)

include h

theorem lasting : Lasting e P := ⟨h.compiles, fun {s} => h.surroundings s.helpers⟩

theorem leaves (op : Operation σ) (s : Store σ) (hs : P s) : P (op.leaves e s) := by
  cases op with
  | render name data => exact h.lasting.render name data s hs
  | renderTemplate t data => exact h.lasting.renderTemplate t data s hs
  | compile source => exact h.compiles e.cache "source" source hs
  | loadTemplate name => exact h.lasting.loadTemplate name s hs
  | loadPartial name => exact h.lasting.loadPartial name s hs
  | loadLambda text delimiters => exact h.lasting.loadLambda text delimiters s hs
  | addHelper name v => exact h.surroundings _ s.world hs
  | removeHelper name =>
    obtain ⟨helpers, heq⟩ := left_removeHelper name s
    rw [Operation.leaves, heq]
    exact h.surroundings helpers s.world hs
  | clearCache =>
    rw [Operation.leaves, left_clearCache]
    exact h.surroundings _ _ (h.clears hs)
  | edit f => exact h.surroundings s.helpers (f s.world) hs

/-- **An invariant holds after every history**, whatever is rendered and whatever fails in it. -/
theorem perform (history : List (Operation σ)) (s : Store σ) (hs : P s) :
    P (e.perform history s) := by
  induction history generalizing s with
  | nil => exact hs
  | cons op history ih => exact ih (op.leaves e s) (h.leaves op s hs)

end Engine.Invariant

end Mustache
