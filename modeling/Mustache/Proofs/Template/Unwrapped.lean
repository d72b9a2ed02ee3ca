import Mathlib.Logic.Relation
import Mustache.Proofs.Template.Change
import Mustache.Proofs.Token.Plain

/-!
Compiling a source out of which the tags of a section are taken. Its steps are those of the source
but for one place, where the steps of the section stand without it. Main statement:
`exists_compile_taken`.
-/

namespace Mustache

namespace Step

/-! ### A section among steps -/

/-- The step is the section of this tag and this body. -/
def IsSection (tag body : String) (step : Step) : Prop :=
  ∃ filters strict inner, step = .sectionStep (Name.parse filters tag) strict body .standard inner

/-- The steps begin with the section, or with blanks and the section behind them, in which blanks go
on. -/
def OpensWith (tag body : String) (steps : List Step) : Prop :=
  (∃ sec rest, steps = sec :: rest ∧ IsSection tag body sec) ∨
    ∃ blanks lineStart filters strict text mark inner rest,
      steps = .text blanks lineStart ::
        .sectionStep (Name.parse filters tag) strict body .standard (.text text mark :: inner) ::
          rest ∧
      Text.leadingBlanks blanks.toList = blanks.toList ∧
      ∀ c ∈ text.toList.head?, Text.leadingBlanks [c] = [c]

theorem OpensWith.append {tag body : String} {steps : List Step} (h : OpensWith tag body steps)
    (more : List Step) : OpensWith tag body (steps ++ more) := by
  rcases h with ⟨sec, rest, rfl, hsec⟩ |
    ⟨blanks, lineStart, filters, strict, text, mark, inner, rest, rfl, h⟩
  · exact .inl ⟨sec, rest ++ more, rfl, hsec⟩
  · exact .inr ⟨blanks, lineStart, filters, strict, text, mark, inner, rest ++ more, rfl, h⟩

/-! ### Texts that run on -/

/-- In the second list a text has run on into the text behind it. -/
inductive Fuses : List Step → List Step → Prop
  | intro (front back : List Step) (text more : String) (lineStart : Bool) :
    Fuses (front ++ .text text lineStart :: .text more false :: back)
      (front ++ .text (text ++ more) lineStart :: back)

theorem Fuses.append_left {steps steps' : List Step} (h : Fuses steps steps') (front : List Step) :
    Fuses (front ++ steps) (front ++ steps') := by
  obtain ⟨fs, bs, text, more, lineStart⟩ := h
  rw [← List.append_assoc, ← List.append_assoc]
  exact .intro _ _ _ _ _

theorem Fuses.append_right {steps steps' : List Step} (h : Fuses steps steps') (back : List Step) :
    Fuses (steps ++ back) (steps' ++ back) := by
  obtain ⟨fs, bs, text, more, lineStart⟩ := h
  rw [List.append_assoc, List.append_assoc]
  exact .intro _ _ _ _ _

/-! ### One section unwrapped -/

/-- In the second list one section of this tag and this body is not there; the steps in it stand in
its place. But for marks they are the steps `lone`. -/
inductive Taken (tag body : String) (lone : List Step) : List Step → List Step → Prop
  | intro {front back inner steps : List Step} {filters strict : Bool}
    (hmarks : allUnmarked inner = allUnmarked lone)
    (hfuses : Relation.ReflTransGen Fuses (front ++ (inner ++ back)) steps) :
    Taken tag body lone
      (front ++ .sectionStep (Name.parse filters tag) strict body .standard inner :: back) steps

/-- The section of this tag and this body is unwrapped, which has the text `spot` with its tags. -/
def unwrapping (tag : String) (head spot tail : List Char) (body : String) (lone : List Step) :
    Change where
  here := Taken tag body lone
  around := Encloses head spot tail
  opens := OpensWith tag body
  shallow := True
  here_between := by
    rintro _ steps' ⟨hmarks, hfuses⟩ before behind
    rename_i front back inner filters strict
    have hall : Relation.ReflTransGen Fuses (before ++ (front ++ (inner ++ back)) ++ behind)
        (before ++ steps' ++ behind) :=
      (hfuses.lift (before ++ ·) fun _ _ h => h.append_left before).lift (· ++ behind)
        fun _ _ h => h.append_right behind
    have hassoc : before ++ (front ++ .sectionStep (Name.parse filters tag) strict body .standard
        inner :: back) ++ behind = before ++ front ++ .sectionStep (Name.parse filters tag) strict
          body .standard inner :: (back ++ behind) := by
      simp
    rw [hassoc]
    exact .intro hmarks (by simpa using hall)
  not_overrides := by
    rintro _ _ ⟨-, -⟩ hblocks
    cases hblocks _ (List.mem_append_right _ List.mem_cons_self)
  opens_append h more := h.append more

end Step

namespace Template

open Node (movedAll)

section

variable {source source' : List Char} {strictVariables : Bool} {tag body : String}
  {lone : List Step} {ch : Step.Change} {c : PragmaSet} {ns ns' ms : List Node}

/-! ### The section -/

theorem compileNodes_text {text : String} {w : Walk} :
    compileNodes source strictVariables [.text text] w =
      .ok ([.text text w.lineStart], ⟨w.pragmas, endsInNewline text⟩) := by
  rw [compileNodes_singleton, compileNode]
  rfl

/-- A text that has run on is compiled to one that has run on. -/
theorem compileNodes_joins {ks : List Node} (h : Node.Joins ns ms ks) {w w' : Walk}
    {steps : List Step}
    (hrun : compileNodes source strictVariables (ns ++ ms) w = .ok (steps, w')) : ∃ steps',
    compileNodes source strictVariables ks w = .ok (steps', w') ∧
      Relation.ReflTransGen Step.Fuses steps steps' := by
  cases h with
  | apart => exact ⟨steps, hrun, .refl⟩
  | @fused front back text more hline =>
    rw [List.append_assoc] at hrun
    obtain ⟨first, mid, rest, hfirst, hrest, rfl⟩ := compileNodes_append_eq_ok.mp hrun
    obtain ⟨_, _, others, htext, hothers, rfl⟩ := compileNodes_append_eq_ok.mp hrest
    rw [compileNodes_text] at htext
    obtain ⟨rfl, rfl⟩ := Prod.mk.inj (Except.ok.inj htext)
    rw [← List.singleton_append] at hothers
    obtain ⟨_, _, behind, hmore, hbehind, rfl⟩ := compileNodes_append_eq_ok.mp hothers
    rw [compileNodes_text] at hmore
    obtain ⟨rfl, rfl⟩ := Prod.mk.inj (Except.ok.inj hmore)
    have hopen : endsInNewline text = false := by simpa [endsInNewline] using hline
    refine ⟨first ++ ([.text (text ++ more) mid.lineStart] ++ behind), ?_, ?_⟩
    · refine compileNodes_append_eq_ok.mpr ⟨first, mid, _, hfirst, ?_, rfl⟩
      rw [← List.singleton_append]
      refine compileNodes_append_eq_ok.mpr ⟨_, _, behind, compileNodes_text, ?_, rfl⟩
      rw [endsInNewline_append hopen]
      exact hbehind
    · rw [hopen]
      exact .single (.intro first behind text more mid.lineStart)

theorem blockIndent_congr (h : ns.head? = ms.head?) (own : String) :
    blockIndent ns own = blockIndent ms own := by
  cases ns <;> cases ms
  · rfl
  · cases h
  · cases h
  · rename_i n _ _ _
    obtain rfl := Option.some.inj h
    cases n <;> rfl

/-- Blanks that a text begins with, when it runs on. -/
theorem leadingBlanks_append {text more : List Char}
    (h : Text.leadingBlanks text = text → ∃ c ∈ more.head?, Text.leadingBlanks [c] ≠ [c]) :
    Text.leadingBlanks (text ++ more) = Text.leadingBlanks text := by
  unfold Text.leadingBlanks at *
  rw [List.takeWhile_append]
  split
  · rename_i hlength
    have hall := List.IsPrefix.eq_of_length (List.takeWhile_prefix _) hlength
    obtain ⟨c, hc, hblank⟩ := h hall
    obtain ⟨more, rfl⟩ := List.head?_eq_some_iff.mp hc
    rw [List.takeWhile_cons] at hblank ⊢
    split
    · rename_i hp
      simp [hp] at hblank
    · simp [hall]
  · rfl

/-- If the indent of a block is another one with a section in it unwrapped, it opens with the
section. -/
theorem blockIndent_of_joins {n k n' k' : Nat} {kids front more : List Node} {sec : Node}
    (hjoins : Node.Joins front (movedAll n' k' kids) ms) (hjoins' : Node.Joins ms more ns')
    (hne : movedAll n' k' kids ≠ []) {w mid mid' : Walk} {first inner : List Step}
    (hfirst : compileNodes source strictVariables front w = .ok (first, mid))
    (hinner : compileNodes source strictVariables (movedAll n k kids) mid = .ok (inner, mid'))
    (own : String) (filters strict : Bool) (back : List Step) :
    blockIndent ns' own = blockIndent (front ++ sec :: more) own ∨ Step.OpensWith tag body
      (first ++ .sectionStep (Name.parse filters tag) strict body .standard inner :: back) := by
  cases front with
  | nil =>
    rw [compileNodes] at hfirst
    obtain ⟨rfl, rfl⟩ := Prod.mk.inj (Except.ok.inj hfirst)
    exact .inr (.inl ⟨_, back, rfl, _, _, _, rfl⟩)
  | cons f front =>
    rcases hjoins.head?_of_joins hjoins' (List.cons_ne_nil f front) hne with
      hhead | ⟨text, text', behind, others, hsingle, htext, hhead⟩
    · refine .inl (blockIndent_congr ?_ own)
      rw [hhead]
      rfl
    obtain ⟨rfl, rfl⟩ := List.cons.inj hsingle
    by_cases hblank : Text.leadingBlanks text.toList = text.toList ∧
        ∀ ch ∈ text'.toList.head?, Text.leadingBlanks [ch] = [ch]
    · -- blanks run on into the body
      rw [compileNodes_text] at hfirst
      obtain ⟨rfl, rfl⟩ := Prod.mk.inj (Except.ok.inj hfirst)
      obtain ⟨kid, kids, rfl, hkid, -⟩ : ∃ kid rest, kids = kid :: rest ∧
          kid.moved n' k' = .text text' ∧ movedAll n' k' rest = others := by
        rw [Node.movedAll_eq_map] at htext
        simpa only [Node.movedAll_eq_map] using List.map_eq_cons_iff.mp htext
      obtain rfl : kid = .text text' := by
        cases kid with
        | text t => simpa [Node.moved] using hkid
        | _ => simp [Node.moved] at hkid
      rw [movedAll, Node.moved, ← List.singleton_append] at hinner
      obtain ⟨_, _, others, htext, -, rfl⟩ := compileNodes_append_eq_ok.mp hinner
      rw [compileNodes_text] at htext
      obtain ⟨rfl, rfl⟩ := Prod.mk.inj (Except.ok.inj htext)
      exact .inr (.inr ⟨text, _, filters, strict, text', _, others, back, rfl, hblank.1, hblank.2⟩)
    · refine .inl ?_
      have hlist : ns'.head? = [Node.text (text ++ (text' ++ behind))].head? := hhead
      have hends : Text.leadingBlanks text.toList = text.toList →
          ∃ ch ∈ (text' ++ behind).toList.head?, Text.leadingBlanks [ch] ≠ [ch] := by
        intro hall
        by_contra hnone
        refine hblank ⟨hall, fun ch hch => by_contra fun hdark => hnone ⟨ch, ?_, hdark⟩⟩
        obtain ⟨tail, htail⟩ := List.head?_eq_some_iff.mp hch
        rw [String.toList_append, htail]
        rfl
      rw [blockIndent_congr hlist]
      show String.ofList (Text.leadingBlanks (text ++ (text' ++ behind)).toList) =
        String.ofList (Text.leadingBlanks text.toList)
      rw [String.toList_append, leadingBlanks_append hends]

/-- **The tags of a section are taken.** What stands in it is compiled to the same in its place, and
marked steps aside to `lone`. -/
theorem Differ.taken {head spot tail : List Char} {n k n' k' : Nat} {kids front more : List Node}
    {start stop line : Nat} (hfront : Follows source source' strictVariables front front)
    (hkids : Follows source source' strictVariables (movedAll n k kids) (movedAll n' k' kids))
    (hmore : Follows source source' strictVariables more more)
    (hbody : bodyText source start stop = body) (hne : movedAll n' k' kids ≠ [])
    (hlone : ∀ w inner w', w.pragmas = (Node.outlineAll front).foldl Node.enables c →
      compileNodes source strictVariables (movedAll n k kids) w = .ok (inner, w') →
      Step.allUnmarked inner = Step.allUnmarked lone)
    (hjoins : Node.Joins front (movedAll n' k' kids) ms) (hjoins' : Node.Joins ms more ns') :
    Differ source source' strictVariables (Step.unwrapping tag head spot tail body lone) c
      (front ++ .sectionNode tag false (movedAll n k kids) start stop .standard line :: more)
      ns' where
  ne_nil := List.append_ne_nil_of_right_ne_nil _ (List.cons_ne_nil _ _)
  ne_nil' := hjoins'.ne_nil (.inl (hjoins.ne_nil (.inr hne)))
  blocks hall := nomatch hall _ (List.mem_append_right _ List.mem_cons_self)
  compiles w steps w' hw hrun := by
    obtain ⟨first, mid, rest, hfirst, hrest, rfl⟩ := compileNodes_append_eq_ok.mp hrun
    rw [← List.singleton_append] at hrest
    obtain ⟨sec, mid', back, hsec, hback, rfl⟩ := compileNodes_append_eq_ok.mp hrest
    have hmid : mid.pragmas = (Node.outlineAll front).foldl Node.enables c :=
      (tracks_compileNodes source strictVariables front c w first mid hw hfirst).1
    rw [compileNodes_singleton, compileNode] at hsec
    obtain ⟨_, _, hget, hact⟩ := bind_eq_ok.mp hsec
    obtain ⟨rfl, rfl⟩ := Prod.mk.inj (Except.ok.inj hget)
    obtain ⟨inner, hinner, rfl⟩ := map_eq_ok.mp hact
    rw [hbody]
    -- in the other source the same steps stand next to each other
    have hjoined : compileNodes source' strictVariables (front ++ (movedAll n' k' kids ++ more)) w =
        .ok (first ++ (inner ++ back), w') :=
      compileNodes_append_eq_ok.mpr ⟨first, mid, _, hfront _ _ hfirst,
        compileNodes_append_eq_ok.mpr ⟨inner, mid', back, hkids _ _ hinner, hmore _ _ hback, rfl⟩,
        rfl⟩
    obtain ⟨fused, hfused, hfuses⟩ := compileNodes_joins (hjoins.append more) hjoined
    obtain ⟨steps', hsteps', hfuses'⟩ := compileNodes_joins hjoins' hfused
    exact ⟨steps', hsteps', .inr
      ⟨.here (.intro (hlone _ _ _ hmid hinner) (hfuses.trans hfuses')), fun own =>
        blockIndent_of_joins hjoins hjoins' hne hfirst hinner own _ _ back⟩⟩

end

end Template

namespace Node

/-! ### Where the section stands -/

/-- The tokens that do not stand directly in a parent tag. -/
def outside (s : PragmaSet) (ts : List Token) : List Token :=
  ((visits s ts).filter fun v => !v.inParent).map Visit.tag

/-- A section tag `o` and the tag `c` that closes it, with the text `body` between them, on one line
and with a text that is not blank. Between the tags no pragma is enabled, and nowhere a tag changes
the delimiters. The nodes in the section are `nodes`. -/
structure Tags (s : PragmaSet) (head opening body closing tail : String)
    (front inner back : List Token) (o c : Token) (nodes : List Node) : Prop where
  lies : Token.Surrounds head.toList opening.toList body.toList closing.toList tail.toList o c
  scan : Token.scan .standard (head ++ opening ++ body ++ closing ++ tail) =
    .ok (front ++ o :: (inner ++ c :: back))
  plain : ∀ t ∈ front ++ o :: (inner ++ c :: back), t.kind ≠ .delimiters
  kind : o.kind = .sectionTag
  stays : (Machine.start (s.through front)).closesItself? o = none
  tree : ofTokens (s.through front) inner = .ok nodes
  close : c.kind = .close
  value : c.value = o.value
  line : '\n' ∉ body.toList
  dark : ∃ u ∈ inner, u.isText = true ∧ u.isBlankText = false
  pragmas : ∀ t ∈ inner, t.kind ≠ .pragma

namespace Machine

theorem foldl_enables_visits {m m' : Machine} {ts : List Token} {c : PragmaSet}
    (h : m.read ts = .ok m') (before out : List Token) :
    m'.soFar.foldl enables c = (m.soFar.foldl enables c).through
      (((m.visits before out ts).filter fun v => !v.inParent).map Visit.tag) := by
  induction ts generalizing m before out with
  | nil =>
    obtain rfl := Except.ok.inj h
    rfl
  | cons t ts ih =>
    rw [read] at h
    cases hstep : m.step t with
    | error f =>
      rw [hstep] at h
      cases h
    | ok mid =>
      rw [hstep] at h
      rw [ih h (before ++ [t]) (if m.inParent then out else out ++ [t]), soFar_step hstep,
        List.foldl_append, left_eq_leaves hstep, enables_leaves, visits, hstep]
      cases m.inParent <;> simp [PragmaSet.through_cons]

end Machine

section

variable {s : PragmaSet} {head opening body closing tail : String} {front inner back : List Token}
  {o c : Token} {nodes tree : List Node}

theorem exists_of_ofTokens_moved {n k : Nat} {ts : List Token}
    (h : ofTokens s (ts.map (Token.moved n k)) = .ok nodes) :
    ∃ ns, ofTokens s ts = .ok ns ∧ nodes = movedAll n k ns := by
  rw [ofTokens_moved] at h
  rw [ofTokens_run]
  cases hrun : (Machine.start s).run ts with
  | error f =>
    rw [hrun] at h
    cases h
  | ok ns =>
    rw [hrun] at h
    exact ⟨ns, rfl, (Except.ok.inj h).symm⟩

/-- The section is one node among those that the machine has come to. -/
theorem Tags.exists_read (h : Tags s head opening body closing tail front inner back o c nodes)
    (htree : ofTokens s (front ++ o :: (inner ++ c :: back)) = .ok tree) :
    ∃ m, (Machine.start s).read front = .ok m ∧ m.pragmas = s.through front ∧
      m.inParent = false ∧
      (m.add (.sectionNode o.value false nodes o.stop c.start .standard o.line)).run back =
        .ok tree := by
  have hrun := run_of_ofTokens htree
  rw [Machine.run_eq_read, Machine.read_append] at hrun
  cases hfront : (Machine.start s).read front with
  | error f =>
    rw [hfront] at hrun
    cases hrun
  | ok m =>
    rw [hfront] at hrun
    have hpragmas : m.pragmas = s.through front := Machine.pragmas_read hfront
    have hself : m.closesItself? o = none := by
      have hstays := h.stays
      rwa [← hpragmas] at hstays
    have hm : m.inParent = false := by
      change ((m.step o).bind _).bind _ = _ at hrun
      cases hstep : m.step o with
      | error f =>
        rw [hstep] at hrun
        cases hrun
      | ok m' => exact Machine.inParent_of_step h.kind hstep
    have hdelimiters : o.delimiters = .standard :=
      Token.delimiters_of_scan Delimiters.writable_standard.singleLine h.scan h.plain o (by simp)
    have hread := Machine.read_section h.kind hm hself (hpragmas ▸ h.tree) h.close h.value
    rw [through_of_plain h.pragmas, hdelimiters] at hread
    have hsplit : o :: (inner ++ c :: back) = o :: (inner ++ [c]) ++ back := by simp
    refine ⟨m, rfl, hpragmas, hm, ?_⟩
    rw [hsplit] at hrun
    change (m.read (o :: (inner ++ [c]) ++ back)).bind _ = _ at hrun
    rw [Machine.read_append, hread] at hrun
    rw [Machine.run_eq_read]
    exact hrun

theorem Tags.body_ne_nil
    (h : Tags s head opening body closing tail front inner back o c nodes) : body.toList ≠ [] := by
  obtain ⟨inner', back', rfl, rfl, hscan, -⟩ :=
    Token.scan_unwrapped h.lies h.scan h.plain h.line h.dark
  intro hnil
  obtain rfl := String.toList_eq_nil_iff.mp hnil
  have hnone : Token.scan .standard "" = .ok [] := by
    rw [Token.scan, show "".toList = [] from rfl, Token.pieces]
    rfl
  obtain rfl := Except.ok.inj (hscan.symm.trans hnone)
  obtain ⟨u, hu, -⟩ := h.dark
  cases hu

/-- What the machine comes to behind the section, and what it comes to if the tags are taken: before
that it was `m`, and the nodes of the section are `kids`, moved. -/
structure Rejoined (s : PragmaSet) (head opening body closing tail : String) (front : List Token)
    (o c : Token) (nodes tree : List Node) (m : Machine) (kids ns more ns' : List Node)
    (rest : List Token) : Prop extends Stands s head.toList tail.toList front rest m where
  nodes_eq : nodes = movedAll (Text.byteLength (head ++ opening).toList)
    (Text.newlines (head ++ opening).toList) kids
  alone : ∃ ts, Token.scan .standard body = .ok ts ∧ ofTokens (s.through front) ts = .ok kids
  ne_nil : kids ≠ []
  joins : Joins m.below (movedAll (Text.byteLength head.toList) (Text.newlines head.toList) kids) ns
  joins' : Joins ns more ns'
  text : more = [] ∨ ∃ text, more = [.text text]
  run : (m.bare.addAll m.pragmas
      (m.below ++ .sectionNode o.value false nodes o.stop c.start .standard o.line :: more)).run
    (rest.map (Token.moved (Text.byteLength (head ++ opening ++ body ++ closing).toList)
      (Text.newlines (head ++ opening ++ body ++ closing).toList))) = .ok tree
  run' : ∃ ts, Token.scan .standard (head ++ body ++ tail) = .ok ts ∧
    (Machine.start s).run ts = (m.bare.addAll m.pragmas ns').run
      (rest.map (Token.moved (Text.byteLength (head ++ body).toList)
        (Text.newlines (head ++ body).toList)))

/-- **The machine goes on as it did** where the tags are taken. -/
theorem Tags.exists_rejoined (h : Tags s head opening body closing tail front inner back o c nodes)
    (htree : ofTokens s (front ++ o :: (inner ++ c :: back)) = .ok tree) :
    ∃ m kids ns more ns' rest,
      Rejoined s head opening body closing tail front o c nodes tree m kids ns more ns' rest := by
  obtain ⟨inner', back', rfl, rfl, hscan, hscan'⟩ :=
    Token.scan_unwrapped h.lies h.scan h.plain h.line h.dark
  obtain ⟨m, hread, hpragmas, hm, hrun⟩ := h.exists_read htree
  obtain ⟨kids, hkids, rfl⟩ := exists_of_ofTokens_moved h.tree
  have hmoved : ofTokens m.pragmas (inner'.map (Token.moved (Text.byteLength head.toList)
      (Text.newlines head.toList))) =
        .ok (movedAll (Text.byteLength head.toList) (Text.newlines head.toList) kids) := by
    rw [hpragmas, ofTokens_moved, run_of_ofTokens hkids]
    rfl
  have hplain : m.pragmas.through (inner'.map (Token.moved (Text.byteLength head.toList)
      (Text.newlines head.toList))) = m.pragmas := by
    refine through_of_plain fun t ht => ?_
    obtain ⟨u, hu, rfl⟩ := List.mem_map.mp ht
    have hkind := h.pragmas _ (List.mem_map_of_mem hu)
    exact hkind
  obtain ⟨_, hdark, htext, -⟩ := h.dark
  obtain ⟨d, hd, rfl⟩ := List.mem_map.mp hdark
  obtain ⟨ns, more, ns', rest, hjoins, hjoins', hmore, hrest, hrun', hback⟩ :=
    Machine.run_join_join hread hm hmoved (List.ne_nil_of_mem (List.mem_map_of_mem hd)) hplain back'
      (Text.byteLength (head ++ body).toList) (Text.newlines (head ++ body).toList)
  have hhead : (head ++ opening ++ body ++ closing ++ tail).toList = head.toList ++
      (opening.toList ++ body.toList ++ closing.toList ++ tail.toList) := by simp
  have hstands := stands_of_scan h.scan hhead h.lies.start_open String.toList_append
    (fun t ht => by simpa using .inr (.inr ⟨t, hrest.subset ht, rfl⟩)) hread
  rw [Machine.add_eq_addAll, ← Machine.addAll_bare, hback, List.append_assoc] at hrun
  exact ⟨m, kids, ns, more, ns', rest, {
    toStands := hstands
    nodes_eq := rfl
    alone := ⟨inner', hscan, hkids⟩
    ne_nil := ne_nil_of_text hkids ⟨d, hd, htext⟩
    joins := hjoins
    joins' := hjoins'
    text := hmore
    run := hrun
    run' := ⟨_, hscan', hrun'⟩ }⟩

end

end Node

namespace Template

/-! ### The two sources -/

section

open Node (movedAll)

variable {strictVariables : Bool} (head opening body closing tail : List Char)

theorem follows_front (ns : List Node)
    (hns : ∀ n : Node, n.In ns → n.StopsBy (Text.byteLength head)) :
    Follows (head ++ opening ++ body ++ closing ++ tail) (head ++ body ++ tail) strictVariables
      ns ns := by
  intro w r hrun
  rw [List.append_assoc, List.append_assoc, List.append_assoc,
    compileNodes_append_right _ _ _ ns hns] at hrun
  rwa [List.append_assoc, compileNodes_append_right _ _ _ ns hns]

theorem follows_inner {ns : List Node}
    (hns : ∀ n : Node, n.In ns → n.StopsBy (Text.byteLength body)) (k k' : Nat) :
    Follows (head ++ opening ++ body ++ closing ++ tail) (head ++ body ++ tail) strictVariables
      (movedAll (Text.byteLength (head ++ opening)) k ns)
      (movedAll (Text.byteLength head) k' ns) := by
  intro w r hrun
  rw [List.append_assoc _ closing, compileNodes_within hns] at hrun
  rwa [compileNodes_within hns]

theorem follows_text (source source' : List Char) {ns : List Node}
    (hns : ns = [] ∨ ∃ text, ns = [.text text]) :
    Follows source source' strictVariables ns ns := by
  rintro w ⟨steps, w'⟩ hrun
  rcases hns with rfl | ⟨text, rfl⟩
  · rwa [compileNodes] at hrun ⊢
  · rwa [compileNodes_text] at hrun ⊢

theorem bodyText_append : bodyText (head ++ opening ++ body ++ closing ++ tail)
    (Text.byteLength (head ++ opening)) (Text.byteLength (head ++ opening ++ body)) =
      String.ofList body := by
  rw [bodyText, Text.byteLength_append (head ++ opening), List.append_assoc _ closing,
    Text.sliceBytes?_append]
  rfl

end

/-- The steps of a text that is read under the pragmas `s` and compiled under the pragmas `c`. -/
def stepsUnder? (strictVariables : Bool) (s c : PragmaSet) (text : String) : Option (List Step) :=
  match Token.scan .standard text with
  | .error _ => none
  | .ok ts =>
    match Node.ofTokens s ts with
    | .error _ => none
    | .ok tree =>
      match compileNodes text.toList strictVariables tree ⟨c, true⟩ with
      | .error _ => none
      | .ok (steps, _) => some steps

section

open Node (Machine movedAll)

variable {options : CompileOptions} {name head opening body closing tail : String}
  {front inner back : List Token} {o c : Token} {nodes tree : List Node} {t : Template}
  {lone : List Step}

theorem stepsUnder?_eq_some_iff {strictVariables : Bool} {s c : PragmaSet} {text : String} :
    stepsUnder? strictVariables s c text = some lone ↔ ∃ ts tree w,
      Token.scan .standard text = .ok ts ∧ Node.ofTokens s ts = .ok tree ∧
      compileNodes text.toList strictVariables tree ⟨c, true⟩ = .ok (lone, w) := by
  unfold stepsUnder?
  cases Token.scan .standard text with
  | error err => simp
  | ok ts =>
    cases htree : Node.ofTokens s ts with
    | error err => simp [htree]
    | ok tree =>
      cases hrun : compileNodes text.toList strictVariables tree ⟨c, true⟩ with
      | error err => simp [htree, hrun]
      | ok r => simp [htree, hrun, Prod.ext_iff]

/-- A line without tags is compiled to one text. -/
theorem stepsUnder?_of_not_contains {text : String}
    (h : Text.contains Delimiters.standard.opening.toList text.toList = false)
    (hline : '\n' ∉ text.toList) (hne : text.toList ≠ []) (strictVariables : Bool)
    (s c : PragmaSet) : stepsUnder? strictVariables s c text = some [.text text true] := by
  refine stepsUnder?_eq_some_iff.mpr
    ⟨_, [.text text], _, Token.scan_of_not_contains h hline hne, ?_, compileNodes_text⟩
  have hnil : Node.ofTokens s [] = .ok [] := by rw [Node.ofTokens, Node.forest_nil_none]
  rw [Node.ofTokens_text_cons s rfl, hnil]
  exact congrArg (fun value => Except.ok [Node.text value]) text.ofList_toList

/-- **Where the tags of a section are taken out of a source**, its template has the steps of the
body in place of the section. -/
theorem exists_compile_taken
    (h : Node.Tags options.pragmas head opening body closing tail front inner back o c nodes)
    (htree : Node.ofTokens options.pragmas (front ++ o :: (inner ++ c :: back)) = .ok tree)
    (hcompile : compile options name (head ++ opening ++ body ++ closing ++ tail) tree = .ok t)
    (hfirst : Node.anyFirstInParent? nodes ≠ some true)
    (hlone : stepsUnder? options.strictVariables (options.pragmas.through front)
      (options.pragmas.through (Node.outside options.pragmas front)) body = some lone)
    (key : String) : ∃ ts tree' t', Token.scan .standard (head ++ body ++ tail) = .ok ts ∧
      Node.ofTokens options.pragmas ts = .ok tree' ∧
      compile { options with key } name (head ++ body ++ tail) tree' = .ok t' ∧
      Step.Matches (Step.unwrapping o.value head.toList
        (opening.toList ++ body.toList ++ closing.toList) tail.toList body lone) t.steps
          t'.steps := by
  obtain ⟨m, kids, ns, more, ns', rest, hr⟩ := h.exists_rejoined htree
  obtain ⟨ts, hscan, hkids⟩ := hr.alone
  obtain ⟨ts', hscan', hrun'⟩ := hr.run'
  obtain ⟨_, _, w₀, hscan₁, hkids₁, hlone⟩ := stepsUnder?_eq_some_iff.mp hlone
  obtain rfl := Except.ok.inj (hscan.symm.trans hscan₁)
  obtain rfl := Except.ok.inj (hkids.symm.trans hkids₁)
  have hmarks : Node.anyFirstInParent? kids ≠ some true := by
    rwa [hr.nodes_eq, Node.anyFirstInParent?_movedAll] at hfirst
  have hpragmas : (Node.outlineAll m.below).foldl Node.enables
      (m.bare.soFar.foldl Node.enables options.pragmas) =
        options.pragmas.through (Node.outside options.pragmas front) := by
    rw [← List.foldl_append, ← Machine.soFar_bare]
    exact Machine.foldl_enables_visits hr.read [] []
  have hstops : ∀ n : Node, n.In kids → n.StopsBy (Text.byteLength body.toList) := fun n hn =>
    Node.stopsBy_of_ofTokens hscan hkids hn
  have hassoc : head.toList ++ opening.toList ++ body.toList ++ closing.toList =
      head.toList ++ (opening.toList ++ body.toList ++ closing.toList) := by simp
  have hsection : Differ
      (head.toList ++ opening.toList ++ body.toList ++ closing.toList ++ tail.toList)
      (head.toList ++ body.toList ++ tail.toList) options.strictVariables
      (Step.unwrapping o.value head.toList (opening.toList ++ body.toList ++ closing.toList)
        tail.toList body lone) (m.bare.soFar.foldl Node.enables options.pragmas)
      (m.below ++ .sectionNode o.value false nodes o.stop c.start .standard o.line :: more)
      ns' := by
    rw [hr.nodes_eq, h.lies.stop_open, h.lies.start_close, String.toList_append]
    refine .taken (follows_front _ _ _ _ _ _ hr.stops.below) (follows_inner _ _ _ _ _ hstops _ _)
      (follows_text _ _ hr.text) ((bodyText_append _ _ _ _ _).trans body.ofList_toList) ?_ ?_
      hr.joins hr.joins'
    · simpa [Node.movedAll_eq_map] using hr.ne_nil
    · intro w inner w' hw hinner
      rw [List.append_assoc _ closing.toList, compileNodes_within hstops] at hinner
      obtain ⟨_, b⟩ := w
      obtain rfl := hw.trans hpragmas
      exact allUnmarked_of_compileNodes hmarks hinner hlone
  have hrun := hr.run
  simp only [String.toList_append, hassoc] at hrun hrun' hsection
  obtain ⟨tree', hrun'', hdiffer⟩ := exists_run_differ (fun _ h => h) hr.stops hr.opened hr.ends
    hrun hsection (Text.newlines (head.toList ++ body.toList))
  obtain ⟨steps, w, hsteps, rfl⟩ := compile_eq_ok_iff.mp hcompile
  simp only [String.toList_append, hassoc] at hsteps
  obtain ⟨steps', hsteps', hdiffers⟩ := hdiffer.compiles _ steps w rfl hsteps
  refine ⟨ts', tree', _, hscan', ?_, compile_eq_ok_iff.mpr ⟨steps', w, ?_, rfl⟩, ?_⟩
  · rw [Node.ofTokens_run, hrun', hrun'']
    rfl
  · simpa only [String.toList_append] using hsteps'
  · exact hdiffers.imp And.left And.left

end

end Template

end Mustache
