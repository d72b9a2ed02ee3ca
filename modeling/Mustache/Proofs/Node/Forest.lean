import Mustache.Node

/-!
How the nodes of a sequence of tokens come about, one equation for each reading of the first token.
-/

namespace Mustache.Node

theorem map_eq_ok_iff {ε α β : Type} {f : α → β} {x : Except ε α} {b : β} :
    x.map f = .ok b ↔ ∃ a, x = .ok a ∧ f a = b := by
  cases x <;> simp [Except.map]

/-- The tag that is open, if any, is a parent. -/
def underParent (opened : Option Token) : Bool := opened.any fun o => o.kind = .parent

section

variable {opened : Option Token} {s : PragmaSet} {t : Token} {ts : List Token}

theorem forest_nil_some (o : Token) :
    forest (some o) s [] = .error ⟨.missingClose o.value o.line, o.line⟩ := by
  rw [forest]

theorem forest_nil_none : forest none s [] = .ok ⟨[], none, s, [], Nat.le_refl _⟩ := by
  rw [forest]

theorem forest_nothing (h : Reading.of s (underParent opened) t = .nothing) :
    forest opened s (t :: ts) = (forest opened s ts).map Forest.skip := by
  unfold underParent at h
  rw [forest.eq_def]
  simp only [h]
  cases forest opened s ts <;> rfl

theorem forest_leaf {n : Node} (h : Reading.of s (underParent opened) t = .leaf n) :
    forest opened s (t :: ts) = (forest opened s ts).map (Forest.cons n) := by
  unfold underParent at h
  rw [forest.eq_def]
  simp only [h]
  cases forest opened s ts <;> rfl

theorem forest_enables (h : Reading.of s (underParent opened) t = .enables) :
    forest opened s (t :: ts) = (forest opened (s.enable t.value) ts).map fun f =>
      if underParent opened then f.skip else f.cons (pragma t.value t.line) := by
  unfold underParent at h ⊢
  rw [forest.eq_def]
  simp only [h]
  cases forest opened (s.enable t.value) ts <;> rfl

theorem forest_closes_none (h : Reading.of s false t = .closes) :
    forest none s (t :: ts) = .error ⟨.unexpectedClose t.value t.line, t.line⟩ := by
  rw [forest.eq_def]
  simp [h]

theorem forest_closes_some {o : Token} (h : Reading.of s (underParent (some o)) t = .closes) :
    forest (some o) s (t :: ts) =
      if o.value = t.value then .ok ⟨[], some t, s, ts, Nat.le_succ _⟩
      else .error ⟨.mismatchedClose o.value o.line t.value t.line, t.line⟩ := by
  unfold underParent at h
  rw [forest.eq_def]
  simp only [h]

theorem forest_stray (h : Reading.of s (underParent opened) t = .stray) :
    forest opened s (t :: ts) = .error ⟨.strayInParent t.value t.line, t.line⟩ := by
  unfold underParent at h
  rw [forest.eq_def]
  simp only [h]

theorem forest_opens_closed {node : String → List Node → Nat → Node} {name : String}
    (h : Reading.of s (underParent opened) t = .opens node)
    (hself : selfClosing? s t = some name) :
    forest opened s (t :: ts) =
      (forest opened s ts).map (Forest.cons (node name [] t.stop)) := by
  unfold underParent at h
  rw [forest.eq_def]
  simp only [h, hself]
  cases forest opened s ts <;> rfl

theorem forest_opens {node : String → List Node → Nat → Node}
    (h : Reading.of s (underParent opened) t = .opens node) (hself : selfClosing? s t = none) :
    forest opened s (t :: ts) =
      match forest (some t) s ts with
      | .error e => .error e
      | .ok body => (forest opened body.pragmas body.rest).map
          (Forest.graft (node t.value body.nodes ((body.close.map Token.start).getD t.stop)) body) := by
  unfold underParent at h
  rw [forest.eq_def]
  simp only [h, hself]
  cases forest (some t) s ts with
  | error e => rfl
  | ok body =>
    cases hrest : forest opened body.pragmas body.rest <;>
      simp [hrest, bind, Except.bind, pure, Except.pure, Except.map]

end

/-- Induction along the construction of a forest. -/
@[elab_as_elim]
theorem forest_induction {motive : Option Token → PragmaSet → List Token → Prop}
    (nil : ∀ opened s, motive opened s [])
    (nothing : ∀ opened s t ts, Reading.of s (underParent opened) t = .nothing →
      motive opened s ts → motive opened s (t :: ts))
    (leaf : ∀ opened s t ts n, Reading.of s (underParent opened) t = .leaf n →
      motive opened s ts → motive opened s (t :: ts))
    (enables : ∀ opened s t ts, Reading.of s (underParent opened) t = .enables →
      motive opened (s.enable t.value) ts → motive opened s (t :: ts))
    (closes : ∀ opened s t ts, Reading.of s (underParent opened) t = .closes →
      motive opened s (t :: ts))
    (stray : ∀ opened s t ts, Reading.of s (underParent opened) t = .stray →
      motive opened s (t :: ts))
    (opensClosed : ∀ opened s t ts node name, Reading.of s (underParent opened) t = .opens node →
      selfClosing? s t = some name → motive opened s ts → motive opened s (t :: ts))
    (opens : ∀ opened s t ts node, Reading.of s (underParent opened) t = .opens node →
      selfClosing? s t = none → motive (some t) s ts →
      (∀ body : Forest ts, motive opened body.pragmas body.rest) → motive opened s (t :: ts))
    (opened : Option Token) (s : PragmaSet) (ts : List Token) : motive opened s ts := by
  induction opened, s, ts using forest.induct with
  | case1 s o => exact nil _ _
  | case2 s => exact nil _ _
  | case3 opened s inParent t ts hread => rename_i ih; exact nothing _ _ _ _ hread ih
  | case4 opened s inParent t ts n hread => rename_i ih; exact leaf _ _ _ _ _ hread ih
  | case5 opened s inParent t ts hread => rename_i ih; exact enables _ _ _ _ hread ih
  | case6 s t ts inParent hread => exact closes _ _ _ _ hread
  | case7 s t ts o hvalue inParent hread => exact closes _ _ _ _ hread
  | case8 s t ts o hvalue inParent hread => exact closes _ _ _ _ hread
  | case9 opened s inParent t ts hread => exact stray _ _ _ _ hread
  | case10 opened s inParent t ts node hread name hself =>
    rename_i ih
    exact opensClosed _ _ _ _ _ _ hread hself ih
  | case11 opened s inParent t ts node hread hself =>
    rename_i ihbody ihrest
    exact opens _ _ _ _ _ hread hself ihbody ihrest

theorem Reading.kind_of_closes {s : PragmaSet} {b : Bool} {t : Token}
    (h : Reading.of s b t = .closes) : t.kind = .close := by
  unfold Reading.of at h
  split at h <;> first | assumption | (repeat' split at h) <;> simp_all

/-- What closes the tag `opened`: a closing tag of its name, and for no tag nothing. -/
def Closes : (opened close : Option Token) → Prop
  | none, none => True
  | some o, some c => c.kind = .close ∧ c.value = o.value
  | _, _ => False

theorem Closes.exists_close {o : Token} {close : Option Token} (h : Closes (some o) close) :
    ∃ c, close = some c ∧ c.kind = .close ∧ c.value = o.value := by
  cases close with
  | none => exact h.elim
  | some c => exact ⟨c, rfl, h⟩

theorem Closes.eq_none {close : Option Token} (h : Closes none close) : close = none := by
  cases close with
  | none => rfl
  | some c => exact h.elim

theorem closes_of_forest {opened : Option Token} {s : PragmaSet} {ts : List Token} {f : Forest ts}
    (h : forest opened s ts = .ok f) : Closes opened f.close := by
  induction opened, s, ts using forest_induction with
  | nil opened s =>
    cases opened with
    | none =>
      rw [forest_nil_none, Except.ok.injEq] at h
      simp [← h, Closes]
    | some o => simp [forest_nil_some] at h
  | nothing opened s t ts hread ih =>
    rw [forest_nothing hread] at h
    obtain ⟨g, hg, rfl⟩ := map_eq_ok_iff.mp h
    exact ih hg
  | leaf opened s t ts n hread ih =>
    rw [forest_leaf hread] at h
    obtain ⟨g, hg, rfl⟩ := map_eq_ok_iff.mp h
    exact ih hg
  | enables opened s t ts hread ih =>
    rw [forest_enables hread] at h
    obtain ⟨g, hg, rfl⟩ := map_eq_ok_iff.mp h
    split
    · exact ih hg
    · exact ih hg
  | closes opened s t ts hread =>
    cases opened with
    | none => simp [forest_closes_none hread] at h
    | some o =>
      rw [forest_closes_some hread] at h
      split at h
      · rename_i hvalue
        obtain rfl := Except.ok.inj h
        exact ⟨Reading.kind_of_closes hread, hvalue.symm⟩
      · simp at h
  | stray opened s t ts hread => simp [forest_stray hread] at h
  | opensClosed opened s t ts node name hread hself ih =>
    rw [forest_opens_closed hread hself] at h
    obtain ⟨g, hg, rfl⟩ := map_eq_ok_iff.mp h
    exact ih hg
  | opens opened s t ts node hread hself ihbody ihrest =>
    rw [forest_opens hread hself] at h
    split at h
    · simp at h
    · rename_i body hbody
      obtain ⟨g, hg, rfl⟩ := map_eq_ok_iff.mp h
      exact ihrest body hg

end Mustache.Node
