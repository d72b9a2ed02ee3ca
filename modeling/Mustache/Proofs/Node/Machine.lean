import Mustache.Proofs.Node.Forest

/-!
The tree of a template by a machine that reads one token after the other, with a set of pragmas
that grows and a stack of open tags. Main statement: `Machine.run_eq`, by which the machine does
with tokens what it does behind the forest that is built from them recursively.
-/

namespace Mustache.Node

/-! ### The machine -/

/-- A tag that is open, and the nodes below it so far. -/
structure Frame where
  tag : Token
  nodes : List Node

/-- The pragmas met, the open tags, innermost first, and the nodes outside all tags. -/
structure Machine where
  pragmas : PragmaSet
  stack : List Frame
  nodes : List Node

/-- The node of a tag that is opened and closed, made of its name, its children and the end of its
body. -/
def ofTag (t : Token) : String → List Node → Nat → Node :=
  match t.kind with
  | .block => fun name children _ => block name children t.indent t.line
  | .parent => fun name children _ => parent name t.indent children t.line
  | .inverted => fun name children stop =>
    sectionNode name true children t.stop stop t.delimiters t.line
  | _ => fun name children stop =>
    sectionNode name false children t.stop stop t.delimiters t.line

/-- The node of a tag that is never open. -/
def ofLeaf (s : PragmaSet) (t : Token) : Node :=
  match t.kind with
  | .escaped => interpolation t.value true t.line
  | .unescaped => interpolation t.value false t.line
  | .block => interpolation ("$" ++ t.value) true t.line
  | .dynamicPartial =>
    if s.contains .dynamicNames then partialNode t.value true t.indent t.line
    else partialNode ("*" ++ t.value) false t.indent t.line
  | _ => partialNode t.value false t.indent t.line

/-- The name of a tag that ends in a slash, without the slash and the white space before it. -/
def unslashed? (t : Token) : Option String :=
  if t.value.toList.getLast? = some '/' then
    some (String.ofList (Text.trimEnd t.value.toList.dropLast))
  else none

namespace Machine

def start (s : PragmaSet) : Machine := ⟨s, [], []⟩

/-- The innermost open tag. -/
def top? (m : Machine) : Option Token :=
  match m.stack with
  | [] => none
  | f :: _ => some f.tag

def inParent (m : Machine) : Bool := m.top?.any fun t => t.kind = .parent

/-- Hangs a node below the innermost open tag. -/
def add (m : Machine) (n : Node) : Machine :=
  match m.stack with
  | [] => { m with nodes := m.nodes ++ [n] }
  | f :: fs => { m with stack := { f with nodes := f.nodes ++ [n] } :: fs }

def enable (m : Machine) (name : String) : Machine :=
  { m with pragmas := m.pragmas.enable name }

def push (m : Machine) (t : Token) : Machine := { m with stack := ⟨t, []⟩ :: m.stack }

/-- Sections always open; blocks do under the pragma or directly in a parent, and parents under
the pragma. -/
def canOpen (m : Machine) (t : Token) : Bool :=
  match t.kind with
  | .sectionTag | .inverted => true
  | .block => m.inParent || m.pragmas.contains .blocks
  | .parent => m.pragmas.contains .blocks
  | _ => false

/-- The name of a tag that closes itself. -/
def closesItself? (m : Machine) (t : Token) : Option String :=
  if m.pragmas.contains .selfClosing then unslashed? t else none

/-- Opens a tag, or adds its node if it closes itself or is never open. -/
def place (m : Machine) (t : Token) : Machine :=
  if m.canOpen t then
    match m.closesItself? t with
    | some name => m.add (ofTag t name [] t.stop)
    | none => m.push t
  else m.add (ofLeaf m.pragmas t)

def step (m : Machine) (t : Token) : Except Fault Machine :=
  match t.kind with
  | .comment | .delimiters => .ok m
  | .text => .ok (if m.inParent then m else m.add (text t.value))
  | .pragma =>
    .ok (if m.inParent then m.enable t.value
      else (m.enable t.value).add (pragma t.value t.line))
  | .close =>
    match m.stack with
    | [] => .error ⟨.unexpectedClose t.value t.line, t.line⟩
    | f :: fs =>
      if f.tag.value = t.value then
        .ok ({ m with stack := fs }.add (ofTag f.tag f.tag.value f.nodes t.start))
      else .error ⟨.mismatchedClose f.tag.value f.tag.line t.value t.line, t.line⟩
  | kind =>
    if m.inParent && kind ≠ .block then .error ⟨.strayInParent t.value t.line, t.line⟩
    else .ok (m.place t)

/-- The tree, if no tag is open. -/
def finish (m : Machine) : Except Fault (List Node) :=
  match m.stack with
  | [] => .ok m.nodes
  | f :: _ => .error ⟨.missingClose f.tag.value f.tag.line, f.tag.line⟩

/-- Reads all tokens, up to the first error. -/
def run (m : Machine) : List Token → Except Fault (List Node)
  | [] => m.finish
  | t :: ts =>
    match m.step t with
    | .ok m => m.run ts
    | .error e => .error e

theorem run_cons_ok {m m' : Machine} {t : Token} {ts : List Token} (h : m.step t = .ok m') :
    m.run (t :: ts) = m'.run ts := by
  rw [run, h]

theorem run_cons_error {m : Machine} {t : Token} {ts : List Token} {e : Fault}
    (h : m.step t = .error e) : m.run (t :: ts) = .error e := by
  rw [run, h]

/-! ### The innermost open tag -/

@[simp] theorem pragmas_add (m : Machine) (n : Node) : (m.add n).pragmas = m.pragmas := by
  unfold add
  split <;> rfl

@[simp] theorem top?_add (m : Machine) (n : Node) : (m.add n).top? = m.top? := by
  unfold top? add
  cases m.stack <;> rfl

@[simp] theorem pragmas_enable (m : Machine) (name : String) :
    (m.enable name).pragmas = m.pragmas.enable name := by
  simp only [enable]

@[simp] theorem top?_enable (m : Machine) (name : String) : (m.enable name).top? = m.top? := by
  simp only [enable, top?]

theorem top?_eq_none_iff {m : Machine} : m.top? = none ↔ m.stack = [] := by
  unfold top?
  cases m.stack <;> simp

theorem top?_eq_some_iff {m : Machine} {o : Token} :
    m.top? = some o ↔ ∃ ns fs, m.stack = ⟨o, ns⟩ :: fs := by
  unfold top?
  constructor
  · intro h
    cases hstack : m.stack with
    | nil => simp [hstack] at h
    | cons f fs =>
      simp only [hstack, Option.some.injEq] at h
      exact ⟨f.nodes, fs, by rw [← h]⟩
  · rintro ⟨ns, fs, h⟩
    simp [h]

theorem inParent_eq {m : Machine} {opened : Option Token} (h : m.top? = opened) :
    m.inParent = underParent opened := by
  rw [← h]
  rfl

/-! ### Adding nodes -/

/-- Hangs nodes below the innermost open tag, under further pragmas. -/
def addAll (m : Machine) (s : PragmaSet) (ns : List Node) : Machine :=
  match m.stack with
  | [] => ⟨s, [], m.nodes ++ ns⟩
  | f :: fs => ⟨s, { f with nodes := f.nodes ++ ns } :: fs, m.nodes⟩

theorem addAll_nil (m : Machine) : m.addAll m.pragmas [] = m := by
  obtain ⟨s, stack, nodes⟩ := m
  cases stack <;> simp [addAll]

theorem addAll_cons (m : Machine) (s : PragmaSet) (n : Node) (ns : List Node) :
    m.addAll s (n :: ns) = (m.add n).addAll s ns := by
  obtain ⟨s', stack, nodes⟩ := m
  cases stack <;> simp [addAll, add]

theorem add_pragmas (m : Machine) (s : PragmaSet) (n : Node) :
    { m with pragmas := s }.add n = { m.add n with pragmas := s } := by
  obtain ⟨s', stack, nodes⟩ := m
  cases stack <;> rfl

/-! ### One token -/

theorem closesItself?_eq (m : Machine) (t : Token) :
    m.closesItself? t = selfClosing? m.pragmas t := by
  unfold closesItself? selfClosing? unslashed?
  rcases List.eq_nil_or_concat t.value.toList with hnil | ⟨stem, c, hconcat⟩
  · simp [hnil, PragmaSet.contains]
  · rw [hconcat, List.concat_eq_append]
    by_cases hc : c = '/'
    · simp [hc, PragmaSet.contains]
    · simp [hc, PragmaSet.contains]

/-- What the machine does with a token of a reading. -/
def Follows (m : Machine) (t : Token) : Reading → Prop
  | .nothing => m.step t = .ok m
  | .leaf n => m.step t = .ok (m.add n)
  | .closes => t.kind = .close
  | .enables => m.step t = .ok
    (if m.inParent then m.enable t.value else (m.enable t.value).add (pragma t.value t.line))
  | .stray => m.step t = .error ⟨.strayInParent t.value t.line, t.line⟩
  | .opens node => node = ofTag t ∧ m.step t = .ok
    (match m.closesItself? t with
    | some name => m.add (ofTag t name [] t.stop)
    | none => m.push t)

theorem follows_of (m : Machine) (t : Token) :
    m.Follows t (Reading.of m.pragmas m.inParent t) := by
  unfold Reading.of
  cases hkind : t.kind <;> cases hparent : m.inParent <;> cases hblocks : m.pragmas.blocks <;>
    cases hnames : m.pragmas.dynamicNames <;>
    simp [Follows, step, place, canOpen, ofTag, ofLeaf, PragmaSet.contains, *]

theorem follows {m : Machine} {s : PragmaSet} {opened : Option Token} {t : Token} {r : Reading}
    (hs : m.pragmas = s) (ho : m.top? = opened)
    (hread : Reading.of s (underParent opened) t = r) : m.Follows t r := by
  have h := m.follows_of t
  rw [hs, inParent_eq ho, hread] at h
  exact h

theorem step_close_nil {m : Machine} {t : Token} (hkind : t.kind = .close)
    (hstack : m.stack = []) :
    m.step t = .error ⟨.unexpectedClose t.value t.line, t.line⟩ := by
  unfold step
  simp [hkind, hstack]

theorem step_close_cons {m : Machine} {t : Token} {f : Frame} {fs : List Frame}
    (hkind : t.kind = .close) (hstack : m.stack = f :: fs) :
    m.step t =
      if f.tag.value = t.value then
        .ok ({ m with stack := fs }.add (ofTag f.tag f.tag.value f.nodes t.start))
      else .error ⟨.mismatchedClose f.tag.value f.tag.line t.value t.line, t.line⟩ := by
  unfold step
  simp [hkind, hstack]

/-! ### The machine and the forest -/

/-- Goes on behind the nodes of a forest, with the tag that closes it. -/
def resume {ts : List Token} (m : Machine) (f : Forest ts) : Except Fault (List Node) :=
  match f.close with
  | none => (m.addAll f.pragmas f.nodes).finish
  | some c => (m.addAll f.pragmas f.nodes).run (c :: f.rest)

theorem resume_cons {t : Token} {ts : List Token} (m : Machine) (n : Node) (f : Forest ts) :
    m.resume (f.cons n : Forest (t :: ts)) = (m.add n).resume f := by
  unfold resume Forest.cons
  simp only [addAll_cons]

theorem resume_pragmas {ts : List Token} (m : Machine) (s : PragmaSet) (f : Forest ts) :
    { m with pragmas := s }.resume f = m.resume f := by
  simp only [resume, addAll]

theorem resume_enable {ts : List Token} (m : Machine) (name : String) (f : Forest ts) :
    (m.enable name).resume f = m.resume f :=
  m.resume_pragmas _ f

theorem resume_graft {t : Token} {ts : List Token} (m : Machine) (s : PragmaSet) (n : Node)
    (body : Forest ts) (f : Forest body.rest) :
    m.resume (Forest.graft n body f : Forest (t :: ts)) =
      ({ m with pragmas := s }.add n).resume f := by
  rw [add_pragmas, resume_pragmas]
  exact m.resume_cons (t := t) n f

/-- The nodes below a tag that was just opened and the tag that closes it become one node. -/
theorem resume_push {s : PragmaSet} {t : Token} {ts : List Token} {body : Forest ts} (m : Machine)
    (h : forest (some t) s ts = .ok body) :
    (m.push t).resume body = (add ⟨body.pragmas, m.stack, m.nodes⟩
      (ofTag t t.value body.nodes ((body.close.map Token.start).getD t.stop))).run body.rest := by
  obtain ⟨c, hc, hkind, hvalue⟩ := (closes_of_forest h).exists_close
  have hstep : ((m.push t).addAll body.pragmas body.nodes).step c =
      .ok (add ⟨body.pragmas, m.stack, m.nodes⟩ (ofTag t t.value body.nodes c.start)) := by
    rw [step_close_cons hkind rfl, if_pos hvalue.symm]
    rfl
  unfold resume
  rw [hc]
  exact run_cons_ok hstep

/-- **The machine does with tokens what it does behind their forest.** -/
theorem run_eq {opened : Option Token} {s : PragmaSet} {ts : List Token} (m : Machine)
    (hs : m.pragmas = s) (ho : m.top? = opened) :
    m.run ts = (forest opened s ts).bind m.resume := by
  -- over all machines, since each node is hung up before the rest is read
  induction opened, s, ts using forest_induction generalizing m with
  | nil opened s =>
    subst hs ho
    obtain ⟨s, stack, nodes⟩ := m
    cases stack with
    | nil => simp [top?, forest_nil_none, Except.bind, resume, addAll, run]
    | cons f fs => simp [top?, forest_nil_some, Except.bind, run, finish]
  | nothing opened s t ts hread ih =>
    have hstep : m.step t = .ok m := follows hs ho hread
    rw [run_cons_ok hstep, forest_nothing hread, ih m hs ho]
    cases forest opened s ts <;> rfl
  | leaf opened s t ts n hread ih =>
    have hstep : m.step t = .ok (m.add n) := follows hs ho hread
    rw [run_cons_ok hstep, forest_leaf hread, ih (m.add n) (by simpa using hs) (by simpa using ho)]
    cases forest opened s ts with
    | error e => rfl
    | ok f => exact (m.resume_cons n f).symm
  | enables opened s t ts hread ih =>
    have hstep : m.step t = .ok (if m.inParent then _ else _) := follows hs ho hread
    have hs' : (m.enable t.value).pragmas = s.enable t.value := by rw [pragmas_enable, hs]
    have ho' : (m.enable t.value).top? = opened := by rw [top?_enable, ho]
    rw [run_cons_ok hstep, forest_enables hread, inParent_eq ho]
    split
    · rw [ih _ hs' ho']
      cases forest opened (s.enable t.value) ts with
      | error e => rfl
      | ok f => exact m.resume_enable t.value f
    · rw [ih (add _ _) (by simpa using hs') (by simpa using ho')]
      cases forest opened (s.enable t.value) ts with
      | error e => rfl
      | ok f =>
        change (add (m.enable t.value) _).resume f = m.resume (f.cons _)
        rw [m.resume_cons, enable, add_pragmas, resume_pragmas]
  | closes opened s t ts hread =>
    have hkind : t.kind = .close := follows hs ho hread
    cases opened with
    | none =>
      rw [run_cons_error (step_close_nil hkind (top?_eq_none_iff.mp ho)), forest_closes_none hread]
      rfl
    | some o =>
      obtain ⟨ns, fs, hstack⟩ := top?_eq_some_iff.mp ho
      have hstep := step_close_cons hkind hstack
      rw [forest_closes_some hread]
      split
      · -- the forest ends in front of the closing tag, which `resume` reads
        rw [← hs]
        change _ = (m.addAll m.pragmas []).run (t :: ts)
        rw [m.addAll_nil]
      · rename_i hvalue
        rw [if_neg hvalue] at hstep
        rw [run_cons_error hstep]
        rfl
  | stray opened s t ts hread =>
    have hstep : m.step t = .error _ := follows hs ho hread
    rw [run_cons_error hstep, forest_stray hread]
    rfl
  | opensClosed opened s t ts node name hread hself ih =>
    obtain ⟨rfl, hstep⟩ := follows hs ho hread
    rw [m.closesItself?_eq, hs, hself] at hstep
    rw [run_cons_ok hstep, forest_opens_closed hread hself,
      ih (m.add _) (by simpa using hs) (by simpa using ho)]
    cases forest opened s ts with
    | error e => rfl
    | ok f => exact (m.resume_cons _ f).symm
  | opens opened s t ts node hread hself ihbody ihrest =>
    obtain ⟨rfl, hstep⟩ := follows hs ho hread
    rw [m.closesItself?_eq, hs, hself] at hstep
    rw [run_cons_ok hstep, forest_opens hread hself, ihbody (m.push t) hs rfl]
    cases hbody : forest (some t) s ts with
    | error e => rfl
    | ok body =>
      change (m.push t).resume body = (Except.map _ _).bind _
      rw [m.resume_push hbody, ihrest body _ (by simp) (by rw [top?_add]; exact ho)]
      cases forest opened body.pragmas body.rest with
      | error e => rfl
      | ok f => exact (m.resume_graft body.pragmas _ body f).symm

end Machine

/-- The tree of a template is the one that the machine builds. -/
theorem ofTokens_run (s : PragmaSet) (ts : List Token) :
    ofTokens s ts = ((Machine.start s).run ts).mapError Fault.toError := by
  have hrun : (Machine.start s).run ts = (forest none s ts).bind (Machine.start s).resume :=
    Machine.run_eq _ rfl rfl
  rw [hrun]
  unfold ofTokens
  show _ = ((forest none s ts).bind _).mapError _
  cases h : forest none s ts with
  | error f => rfl
  | ok f =>
    have hclose : f.close = none := (closes_of_forest h).eq_none
    show Except.ok f.nodes = (((Machine.start s).resume f).mapError _)
    simp only [Machine.resume, hclose]
    rfl

theorem run_of_ofTokens {s : PragmaSet} {ts : List Token} {tree : List Node}
    (h : ofTokens s ts = .ok tree) : (Machine.start s).run ts = .ok tree := by
  rw [ofTokens_run] at h
  cases hrun : (Machine.start s).run ts with
  | error f =>
    rw [hrun] at h
    cases h
  | ok nodes =>
    rw [hrun] at h
    exact congrArg Except.ok (Except.ok.inj h)

end Mustache.Node
