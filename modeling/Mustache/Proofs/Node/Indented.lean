import Mustache.Proofs.Node.Forest
import Mustache.Proofs.Render.Parallel
import Mustache.Proofs.Token.Margin

/-!
Trees of sources with an indent in front of each line. Main statement: `agree_ofTokens_indents`.
-/

namespace Mustache

/-! ### Nodes -/

namespace Node

/-- The second nodes are the first ones with an indent in front of each line, from one margin to
another. -/
inductive Indents (w : String) : Margin → List Node → List Node → Margin → Prop
  | nil {k : Margin} : Indents w k [] [] k
  | margin {ns ns' : List Node} {m : Margin} (h : Indents w .written ns ns' m) :
      Indents w .ahead ns (.text w :: ns') m
  | text {k m : Margin} {ns ns' : List Node} (text : String)
      (h : Indents w (.after text) ns ns' m) :
      Indents w k (.text text :: ns) (.text (k.piece w text) :: ns') m
  | interpolation {k m : Margin} {ns ns' : List Node} (hk : k ≠ .ahead) (name : String)
      (escape : Bool) (line : Nat) (h : Indents w .behind ns ns' m) :
      Indents w k (.interpolation name escape line :: ns) (.interpolation name escape line :: ns') m
  | sectionNode {k k' m : Margin} {children children' ns ns' : List Node} (hk : k ≠ .written)
      (hk' : k' ≠ .written) (name : String) (inverted : Bool) (start start' stop stop' : Nat)
      (d : Delimiters) (line : Nat) (hchildren : Indents w k children children' k')
      (h : Indents w k' ns ns' m) :
      Indents w k (.sectionNode name inverted children start stop d line :: ns)
        (.sectionNode name inverted children' start' stop' d line :: ns') m
  | partialNode {k m : Margin} {ns ns' : List Node} (hk : k ≠ .written) (name : String)
      (dynamic : Bool) (own : Option String) (line : Nat) (h : Indents w k ns ns' m) :
      Indents w k (.partialNode name dynamic own line :: ns)
        (.partialNode name dynamic (own.map (w ++ ·)) line :: ns') m
  | pragma {k m : Margin} {ns ns' : List Node} (name : String) (line : Nat)
      (h : Indents w k ns ns' m) :
      Indents w k (.pragma name line :: ns) (.pragma name line :: ns') m

end Node

/-! ### From tokens to nodes -/

namespace Node

open Token (fields_of_anywhere)

section

variable {w : String} {t t' : Token}

/-- The second forest is the first one with an indent in front of each line. -/
structure Forest.Indented (w : String) (k : Margin) {ts ts' : List Token} (f : Forest ts)
    (f' : Forest ts') : Prop where
  pragmas : f'.pragmas = f.pragmas
  off : f.pragmas.blocks = false
  goesOn : ∃ m, Indents w k f.nodes f'.nodes m ∧ m ≠ .written ∧ Token.Indents w m f.rest f'.rest

theorem Forest.Indented.cons {k k' : Margin} {u u' : Token} {ts ts' : List Token} {f : Forest ts}
    {f' : Forest ts'} {n n' : Node} (h : f.Indented w k' f')
    (hcons : ∀ {ns ns' m}, Indents w k' ns ns' m → Indents w k (n :: ns) (n' :: ns') m) :
    (f.cons n : Forest (u :: ts)).Indented w k (f'.cons n' : Forest (u' :: ts')) := by
  obtain ⟨m, hnodes, hend, hrest⟩ := h.goesOn
  exact ⟨h.pragmas, h.off, m, hcons hnodes, hend, hrest⟩

/-- Both are forests, the second one with the indent, or both have the same fault. -/
def ForestsAlike (w : String) (k : Margin) {ts ts' : List Token} :
    Except Fault (Forest ts) → Except Fault (Forest ts') → Prop
  | .ok f, .ok f' => f.Indented w k f'
  | .error fault, .error fault' => fault' = fault
  | _, _ => False

theorem ForestsAlike.map {k k' : Margin} {ts ts' us us' : List Token}
    {r : Except Fault (Forest ts)} {r' : Except Fault (Forest ts')}
    {F : Forest ts → Forest us} {F' : Forest ts' → Forest us'} (h : ForestsAlike w k r r')
    (hF : ∀ f f', f.Indented w k f' → (F f).Indented w k' (F' f')) :
    ForestsAlike w k' (r.map F) (r'.map F') := by
  cases r <;> cases r'
  · exact h
  · exact h.elim
  · exact h.elim
  · exact hF _ _ h

/-! #### Readings without blocks -/

section

variable {s : PragmaSet} (hoff : s.blocks = false)

include hoff

theorem exists_reading_variable (hkind : t.kind.isVariable = true) : ∃ name escape,
    ∀ u : Token, u.kind = t.kind → u.value = t.value →
      Reading.of s false u = .leaf (.interpolation name escape u.line) := by
  unfold Reading.of
  cases h : t.kind <;> rw [h] at hkind <;> cases hkind
  · exact ⟨t.value, true, fun u hu hvalue => by simp [hu, hvalue]⟩
  · exact ⟨t.value, false, fun u hu hvalue => by simp [hu, hvalue]⟩
  · exact ⟨"$" ++ t.value, true, fun u hu hvalue => by simp [hu, hvalue, hoff]⟩

/-- The tags that are neither variables nor silent. -/
inductive Other (s : PragmaSet) (t : Token) : Prop
  | closes (h : ∀ u : Token, u.kind = t.kind → ∀ inParent, Reading.of s inParent u = .closes)
  | opens (hkind : t.kind ≠ .parent) (inverted : Bool)
      (h : ∀ u : Token, u.kind = t.kind → Reading.of s false u =
        .opens fun name children stop =>
          sectionNode name inverted children u.stop stop u.delimiters u.line)
  | includes (name : String) (dynamic : Bool) (h : ∀ u : Token, u.kind = t.kind →
      u.value = t.value → Reading.of s false u = .leaf (.partialNode name dynamic u.indent u.line))

theorem other_of_kind (htext : t.isText = false) (hsilent : t.kind.isSilent = false)
    (hvariable : t.kind.isVariable = false) : Other s t := by
  unfold Token.isText at htext
  cases h : t.kind <;> simp [h, TokenKind.isSilent, TokenKind.isVariable] at htext hsilent hvariable
  case sectionTag => exact .opens (by simp [h]) false fun u hu => by simp [Reading.of, hu, h]
  case inverted => exact .opens (by simp [h]) true fun u hu => by simp [Reading.of, hu, h]
  case close => exact .closes fun u hu _ => by simp [Reading.of, hu, h]
  case partialTag =>
    exact .includes t.value false fun u hu hvalue => by simp [Reading.of, hu, h, hvalue]
  case parent =>
    exact .includes t.value false fun u hu hvalue => by simp [Reading.of, hu, h, hvalue, hoff]
  case dynamicPartial =>
    cases hnames : s.dynamicNames with
    | true =>
      exact .includes t.value true fun u hu hvalue => by simp [Reading.of, hu, h, hvalue, hnames]
    | false =>
      exact .includes ("*" ++ t.value) false fun u hu hvalue => by
        simp [Reading.of, hu, h, hvalue, hnames]

end

theorem selfClosing?_congr {s : PragmaSet} (h : t'.value = t.value) :
    selfClosing? s t' = selfClosing? s t := by
  unfold selfClosing?
  rw [h]

/-! #### Forests -/

/-- Two tags, if any, that differ at most in where they stand and in their indents. -/
def SameOpened : (opened opened' : Option Token) → Prop
  | none, none => True
  | some o, some o' => o'.kind = o.kind ∧ o'.value = o.value ∧ o'.line = o.line
  | _, _ => False

theorem SameOpened.underParent_eq {opened opened' : Option Token} (h : SameOpened opened opened') :
    underParent opened' = underParent opened := by
  cases opened <;> cases opened'
  · rfl
  · exact h.elim
  · exact h.elim
  · simp [underParent, h.1]

/-- Tokens that are `ts'` with an indent in front of each line come to what `ts'` come to, but for
the indent. -/
def ForestsIndent (w : String) (ts' : List Token) : Prop :=
  ∀ ⦃k : Margin⦄ ⦃ts : List Token⦄, Token.Indents w k ts ts' → ∀ ⦃s : PragmaSet⦄, s.blocks = false →
    ∀ ⦃opened opened' : Option Token⦄, SameOpened opened opened' → underParent opened = false →
      ForestsAlike w k (forest opened s ts) (forest opened' s ts')

section

variable {k : Margin} {ts ts' : List Token} {s : PragmaSet} {opened opened' : Option Token}
  (hoff : s.blocks = false) (hopened : SameOpened opened opened')
  (hparent : underParent opened = false)
  (ih : ∀ us : List Token, us.length ≤ ts'.length → ForestsIndent w us)

include hoff hopened

theorem forestsAlike_nil (hk : k ≠ .written) :
    ForestsAlike w k (forest opened s []) (forest opened' s []) := by
  cases opened <;> cases opened'
  · rw [forest_nil_none]
    exact ⟨rfl, hoff, k, .nil, hk, .nil hk⟩
  · exact hopened.elim
  · exact hopened.elim
  · rw [forest_nil_some, forest_nil_some, hopened.2.1, hopened.2.2]
    rfl

theorem forestsAlike_closes (hk : k ≠ .written) (h : Token.Indents w k ts ts')
    (hread : ∀ b, Reading.of s b t = .closes) (hread' : ∀ b, Reading.of s b t' = .closes)
    (hvalue : t'.value = t.value) (hline : t'.line = t.line) :
    ForestsAlike w k (forest opened s (t :: ts)) (forest opened' s (t' :: ts')) := by
  cases opened <;> cases opened'
  · rw [forest_closes_none (hread _), forest_closes_none (hread' _), hvalue, hline]
    rfl
  · exact hopened.elim
  · exact hopened.elim
  · rw [forest_closes_some (hread _), forest_closes_some (hread' _), hopened.2.1, hopened.2.2,
      hvalue, hline]
    split
    · exact ⟨rfl, hoff, k, .nil, hk, h⟩
    · rfl

include hparent ih

theorem forestsAlike_leaf {k' : Margin} {n n' : Node} (h : Token.Indents w k' ts ts')
    (hread : Reading.of s false t = .leaf n) (hread' : Reading.of s false t' = .leaf n')
    (hcons : ∀ {ns ns' m}, Indents w k' ns ns' m → Indents w k (n :: ns) (n' :: ns') m) :
    ForestsAlike w k (forest opened s (t :: ts)) (forest opened' s (t' :: ts')) := by
  rw [← hparent] at hread
  rw [← hopened.underParent_eq.trans hparent] at hread'
  rw [forest_leaf hread, forest_leaf hread']
  exact (ih ts' le_rfl h hoff hopened hparent).map fun _ _ hf => hf.cons hcons

theorem forestsAlike_silent (h : Token.Indents w k ts ts') (hkind : t.kind.isSilent = true)
    (hsame : t'.anywhere = t.anywhere) (hspares : t.SparesBlocks) :
    ForestsAlike w k (forest opened s (t :: ts)) (forest opened' s (t' :: ts')) := by
  have hparent' := hopened.underParent_eq.trans hparent
  obtain ⟨hkind', hvalue', hline', -, -⟩ := fields_of_anywhere hsame
  by_cases hpragma : t.kind = .pragma
  · have hread : ∀ u : Token, u.kind = t.kind → Reading.of s false u = .enables := by
      intro u hu
      simp [Reading.of, hu, hpragma]
    rw [forest_enables (hparent ▸ hread t rfl), forest_enables (hparent' ▸ hread t' hkind'),
      hparent, hparent', hvalue', hline']
    exact (ih ts' le_rfl h (hspares.blocks_enable hpragma hoff) hopened hparent).map
      fun _ _ hf => hf.cons (.pragma t.value t.line)
  · have hread : ∀ u : Token, u.kind = t.kind → Reading.of s false u = .nothing := by
      intro u hu
      cases h : t.kind <;> simp_all [Reading.of, TokenKind.isSilent]
    rw [forest_nothing (hparent ▸ hread t rfl), forest_nothing (hparent' ▸ hread t' hkind')]
    exact (ih ts' le_rfl h hoff hopened hparent).map fun _ _ hf => ⟨hf.pragmas, hf.off, hf.goesOn⟩

theorem forestsAlike_opens (hk : k ≠ .written) (h : Token.Indents w k ts ts')
    (hsection : t.kind ≠ .parent) (hkind : t'.kind = t.kind) (hvalue : t'.value = t.value)
    (hline : t'.line = t.line) (hdelimiters : t'.delimiters = t.delimiters) {inverted : Bool}
    (hread : ∀ u : Token, u.kind = t.kind → Reading.of s false u =
      .opens fun name children stop =>
        sectionNode name inverted children u.stop stop u.delimiters u.line) :
    ForestsAlike w k (forest opened s (t :: ts)) (forest opened' s (t' :: ts')) := by
  have hopens := hread t rfl
  have hopens' := hread t' hkind
  rw [← hparent] at hopens
  rw [← hopened.underParent_eq.trans hparent] at hopens'
  have hself' : selfClosing? s t' = selfClosing? s t := selfClosing?_congr hvalue
  cases hself : selfClosing? s t with
  | some name =>
    rw [forest_opens_closed hopens hself, forest_opens_closed hopens' (hself'.trans hself), hline,
      hdelimiters]
    exact (ih ts' le_rfl h hoff hopened hparent).map fun _ _ hf =>
      hf.cons (.sectionNode hk hk name inverted _ _ _ _ _ _ .nil)
  | none =>
    have hinner : underParent (some t) = false := by simpa [underParent] using hsection
    have hbodies : ForestsAlike w k (forest (some t) s ts) (forest (some t') s ts') :=
      ih ts' le_rfl h hoff ⟨hkind, hvalue, hline⟩ hinner
    rw [forest_opens hopens hself, forest_opens hopens' (hself'.trans hself)]
    cases hbody : forest (some t) s ts <;> cases hbody' : forest (some t') s ts' <;>
      rw [hbody, hbody'] at hbodies
    · exact hbodies
    · exact hbodies.elim
    · exact hbodies.elim
    · rename_i body body'
      obtain ⟨m, hnodes, hend, hrest⟩ := hbodies.goesOn
      dsimp only
      rw [hbodies.pragmas]
      refine (ih body'.rest body'.rest_le hrest hbodies.off hopened hparent).map fun f f' hf => ?_
      obtain ⟨m', hnodes', hend', hrest'⟩ := hf.goesOn
      refine ⟨hf.pragmas, hf.off, m', ?_, hend', hrest'⟩
      rw [hline, hdelimiters, hvalue]
      exact .sectionNode hk hend t.value inverted _ _ _ _ _ _ hnodes hnodes'

end

theorem forestsIndent (w : String) (ts' : List Token) : ForestsIndent w ts' := by
  induction hlength : ts'.length using Nat.strong_induction_on generalizing ts' with
  | _ n shorter =>
    subst hlength
    have ih : ∀ {t' : Token} {us' : List Token}, ts' = t' :: us' →
        ∀ us : List Token, us.length ≤ us'.length → ForestsIndent w us := by
      rintro t' us' rfl us hus
      exact shorter us.length (Nat.lt_succ_of_le hus) us rfl
    intro k ts h s hoff opened opened' hopened hparent
    cases h with
    | nil hk => exact forestsAlike_nil hoff hopened hk
    | @margin t ts ts' hkind hvalue h =>
      have hread : Reading.of s (underParent opened') t = .leaf (.text w) := by
        simp [Reading.of, hkind, hvalue, hopened.underParent_eq.trans hparent]
      rw [forest_leaf hread]
      have halike := ih rfl ts' le_rfl h hoff hopened hparent
      cases hf : forest opened s ts <;> cases hf' : forest opened' s ts' <;> rw [hf, hf'] at halike
      · exact halike
      · exact halike.elim
      · exact halike.elim
      · obtain ⟨m, hnodes, hend, hrest⟩ := halike.goesOn
        exact ⟨halike.pragmas, halike.off, m, .margin hnodes, hend, hrest⟩
    | @text k t t' ts ts' hkind hkind' hvalue h =>
      exact forestsAlike_leaf hoff hopened hparent (ih rfl) h (by simp [Reading.of, hkind])
        (by simp [Reading.of, hkind', hvalue]) (.text t.value)
    | @silent k t t' ts ts' hkind hsame hspares h =>
      exact forestsAlike_silent hoff hopened hparent (ih rfl) h hkind hsame hspares
    | @isVariable k t t' ts ts' hk hkind hsame h =>
      obtain ⟨hkind', hvalue', hline', -, -⟩ := fields_of_anywhere hsame
      obtain ⟨name, escape, hread⟩ := exists_reading_variable hoff hkind
      exact forestsAlike_leaf hoff hopened hparent (ih rfl) h (hread t rfl rfl)
        (hline' ▸ hread t' hkind' hvalue') (.interpolation hk name escape t.line)
    | @other k t t' ts ts' hk htext hsilent hvariable hsame h =>
      obtain ⟨hkind', hvalue', hline', hdelimiters', hindent'⟩ :
          t'.kind = t.kind ∧ t'.value = t.value ∧ t'.line = t.line ∧
            t'.delimiters = t.delimiters ∧ t'.indent = t.indent.map (w ++ ·) :=
        fields_of_anywhere hsame
      cases other_of_kind hoff htext hsilent hvariable with
      | closes hread =>
        exact forestsAlike_closes hoff hopened hk h (hread t rfl) (hread t' hkind') hvalue' hline'
      | includes name dynamic hread =>
        exact forestsAlike_leaf hoff hopened hparent (ih rfl) h (hread t rfl rfl)
          (hindent' ▸ hline' ▸ hread t' hkind' hvalue')
          (.partialNode hk name dynamic t.indent t.line)
      | opens hsection inverted hread =>
        exact forestsAlike_opens hoff hopened hparent (ih rfl) hk h hsection hkind' hvalue' hline'
          hdelimiters' hread

/-- **Tokens with an indent in front of each line come to the same tree, but for the indent**, or
to the same error. -/
theorem agree_ofTokens_indents {s : PragmaSet} (hoff : s.blocks = false) {ts ts' : List Token}
    (h : Token.Indents w .ahead ts ts') :
    Agree Eq (fun tree tree' => ∃ m, Indents w .ahead tree tree' m ∧ m ≠ .written)
      (ofTokens s ts) (ofTokens s ts') := by
  have halike : ForestsAlike w .ahead (forest none s ts) (forest none s ts') :=
    forestsIndent w ts' h hoff trivial rfl
  unfold ofTokens
  cases hf : forest none s ts <;> cases hf' : forest none s ts' <;> rw [hf, hf'] at halike
  · exact congrArg Fault.toError halike.symm
  · exact halike.elim
  · exact halike.elim
  · obtain ⟨m, hnodes, hm, -⟩ := halike.goesOn
    exact ⟨m, hnodes, hm⟩

end

end Node

end Mustache
