import Mustache.Proofs.Node.Nesting

/-!
The pragmas under which each token is read: the ones of the engine, and those that pragma tags in
front of it enable, wherever these stand. Main statement: `outlineAll_eq_visits`, by which the tree
holds what the tokens leave when each is read under these.
-/

namespace Mustache

namespace PragmaSet

/-- The pragmas in force behind some tokens. -/
def through (s : PragmaSet) (ts : List Token) : PragmaSet :=
  ts.foldl (fun s t => if t.kind = .pragma then s.enable t.value else s) s

@[simp] theorem through_nil (s : PragmaSet) : s.through [] = s := rfl

theorem through_cons (s : PragmaSet) (t : Token) (ts : List Token) :
    s.through (t :: ts) = (if t.kind = .pragma then s.enable t.value else s).through ts := rfl

theorem through_concat (s : PragmaSet) (ts : List Token) (t : Token) :
    s.through (ts ++ [t]) =
      if t.kind = .pragma then (s.through ts).enable t.value else s.through ts := by
  simp [through]

theorem contains_enable (s : PragmaSet) (name : String) (p : Pragma) :
    (s.enable name).contains p = true ↔
      s.contains p = true ∨ Pragma.ofName? (trimmed name) = some p := by
  unfold enable
  cases Pragma.ofName? (trimmed name) with
  | none => simp
  | some q =>
    rw [contains_insert, Bool.or_eq_true, beq_iff_eq, Option.some.injEq, or_comm]
    exact or_congr_right eq_comm

/-- Behind some tokens those pragmas hold that held in front, and those that a pragma tag names. -/
theorem contains_through {s : PragmaSet} {ts : List Token} {p : Pragma} :
    (s.through ts).contains p = true ↔ s.contains p = true ∨
      ∃ t ∈ ts, t.kind = .pragma ∧ Pragma.ofName? (trimmed t.value) = some p := by
  induction ts generalizing s with
  | nil => simp
  | cons t ts ih =>
    rw [through_cons, ih]
    split
    · rename_i hkind
      rw [contains_enable, or_assoc]
      simp [hkind]
    · rename_i hkind
      simp [hkind]

end PragmaSet

namespace Node

/-- A token with those in front of it. -/
structure Visit where
  before : List Token
  /-- Those in front that do not stand directly in a parent tag. -/
  outside : List Token
  /-- The token itself stands directly in a parent tag. -/
  inParent : Bool
  tag : Token

/-- What a token leaves in the outline of a tree when it is read under the pragmas `s`. -/
def leaves (s : PragmaSet) (inParent : Bool) (t : Token) : List Node :=
  match Reading.of s inParent t with
  | .leaf n => [n]
  | .opens node => [node ((selfClosing? s t).getD t.value) [] t.stop]
  | .enables => if inParent then [] else [pragma t.value t.line]
  | .nothing | .closes | .stray => []

namespace Machine

/-- The tokens as they are read one after the other, up to the first error. -/
def visits (before outside : List Token) (m : Machine) : List Token → List Visit
  | [] => []
  | t :: ts => ⟨before, outside, m.inParent, t⟩ ::
    match m.step t with
    | .ok m' => m'.visits (before ++ [t]) (if m.inParent then outside else outside ++ [t]) ts
    | .error _ => []

theorem left_eq_leaves {m m' : Machine} {t : Token} (h : m.step t = .ok m') :
    m.left t = leaves m.pragmas m.inParent t := by
  have hfollows := m.follows_of t
  unfold left leaves
  rw [← m.closesItself?_eq]
  unfold Reading.of at hfollows ⊢
  cases hkind : t.kind <;> cases hparent : m.inParent <;> cases hblocks : m.pragmas.blocks <;>
    cases hnames : m.pragmas.dynamicNames <;>
    simp_all [Follows, canOpen, ofTag, ofLeaf, PragmaSet.contains]

theorem pragmas_step {m m' : Machine} {t : Token} (h : m.step t = .ok m') :
    m'.pragmas = if t.kind = .pragma then m.pragmas.enable t.value else m.pragmas := by
  have hplace : (m.place t).pragmas = m.pragmas := by
    unfold place
    split
    · split <;> simp [push]
    · simp
  unfold step at h
  cases hkind : t.kind <;> simp only [hkind] at h
  case comment | delimiters =>
    obtain rfl := Except.ok.inj h
    simp
  case text =>
    obtain rfl := Except.ok.inj h
    cases m.inParent <;> simp
  case pragma =>
    obtain rfl := Except.ok.inj h
    cases m.inParent <;> simp
  case close =>
    split at h
    · simp at h
    · split at h
      · obtain rfl := Except.ok.inj h
        simp
      · simp at h
  all_goals
    split at h
    · simp at h
    · obtain rfl := Except.ok.inj h
      simpa using hplace

section

variable {m : Machine} {s : PragmaSet} {before outside ts : List Token} {nodes : List Node}

/-- What stands in front of a token, by the tokens visited before it. -/
theorem visit_eq {us ws : List Visit} {v : Visit}
    (h : m.visits before outside ts = us ++ v :: ws) :
    v.before = before ++ us.map Visit.tag ∧
      v.outside = outside ++ (us.filter fun u => !u.inParent).map Visit.tag := by
  induction ts generalizing m before outside us with
  | nil => simp [visits] at h
  | cons t ts ih =>
    rw [visits] at h
    cases us with
    | nil =>
      obtain ⟨rfl, -⟩ := List.cons.inj h
      simp
    | cons u us =>
      obtain ⟨rfl, hrest⟩ := List.cons.inj h
      split at hrest
      · obtain ⟨hbefore, houtside⟩ := ih hrest
        rw [hbefore, houtside]
        cases m.inParent <;> simp
      · simp at hrest

/-- Every token of a tree is visited. -/
theorem tag_visits (h : m.run ts = .ok nodes) :
    (m.visits before outside ts).map Visit.tag = ts := by
  induction ts generalizing m before outside with
  | nil => rfl
  | cons t ts ih =>
    unfold run at h
    split at h
    · rename_i m' hstep
      rw [visits, hstep, List.map_cons, ih h]
    · simp at h

theorem kept_eq_visits (h : m.run ts = .ok nodes) (hs : m.pragmas = s.through before) :
    m.kept ts = (m.visits before outside ts).flatMap fun v =>
      leaves (s.through v.before) v.inParent v.tag := by
  induction ts generalizing m before outside with
  | nil => rfl
  | cons t ts ih =>
    unfold run at h
    split at h
    · rename_i m' hstep
      have hs' : m'.pragmas = s.through (before ++ [t]) := by
        rw [pragmas_step hstep, PragmaSet.through_concat, hs]
      rw [kept, visits, hstep, List.flatMap_cons, left_eq_leaves hstep, hs]
      exact congrArg _ (ih h hs')
    · simp at h

end

end Machine

/-- The tokens of a template as they are read under the pragmas `s` of its engine. -/
def visits (s : PragmaSet) (ts : List Token) : List Visit := (Machine.start s).visits [] [] ts

/-- **Each token is read under the pragmas of the engine and of all pragma tags in front.** -/
theorem outlineAll_eq_visits {s : PragmaSet} {ts : List Token} {tree : List Node}
    (h : ofTokens s ts = .ok tree) :
    (visits s ts).map Visit.tag = ts ∧
    outlineAll tree = (visits s ts).flatMap fun v =>
      leaves (s.through v.before) v.inParent v.tag := by
  have hrun := run_of_ofTokens h
  refine ⟨Machine.tag_visits hrun, ?_⟩
  rw [Machine.outlineAll_of_run hrun, Machine.soFar_start, List.nil_append]
  exact Machine.kept_eq_visits hrun rfl

end Node

end Mustache
