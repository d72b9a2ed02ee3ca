import Mustache.Proofs.Node.Joined
import Mustache.Proofs.Token.Lossless
import Mustache.Template

/-!
The literal bodies of sections. What the tokens of a template mean is a grammar: a tag that opens,
the tokens up to the closing tag that matches it, and so on. The body of a section is the part of
the source between the two tags. Main statement: `spans_of_scan`.
-/

namespace Mustache.Text

/-- Of two parts at the start of a text, the shorter one starts the other. -/
theorem exists_append_of_byteLength_le {cs a b a' b' : List Char} (ha : cs = a ++ a')
    (hb : cs = b ++ b') (h : byteLength a ≤ byteLength b) : ∃ body, b = a ++ body := by
  have hprefix : a <+: b ∨ b <+: a :=
    List.prefix_or_prefix_of_prefix (ha ▸ List.prefix_append a a') (hb ▸ List.prefix_append b b')
  rcases hprefix with ⟨body, hbody⟩ | ⟨extra, hextra⟩
  · exact ⟨body, hbody.symm⟩
  · refine ⟨[], ?_⟩
    have hnil : extra = [] := by
      by_contra hne
      have := byteLength_pos hne
      rw [← hextra, byteLength_append] at h
      omega
    rw [← hextra, hnil, List.append_nil, List.append_nil]

end Mustache.Text

namespace Mustache.PragmaSet

theorem through_append (s : PragmaSet) (ts us : List Token) :
    s.through (ts ++ us) = (s.through ts).through us := List.foldl_append

theorem through_singleton_of_ne {t : Token} (h : t.kind ≠ .pragma) (s : PragmaSet) :
    s.through [t] = s := if_neg h

end Mustache.PragmaSet

namespace Mustache.Node

/-! ### The grammar of tokens -/

/-- Behind the tag `opened`, under the pragmas `s`, the tokens are read as the nodes. Every tag
among them that opens is closed among them. -/
inductive Parses : PragmaSet → Option Token → List Token → List Node → Prop
  | nil (s : PragmaSet) (opened : Option Token) : Parses s opened [] []
  | nothing {s : PragmaSet} {opened : Option Token} {t : Token} {ts : List Token} {ns : List Node}
    (hread : Reading.of s (underParent opened) t = .nothing) (hrest : Parses s opened ts ns) :
    Parses s opened (t :: ts) ns
  | leaf {s : PragmaSet} {opened : Option Token} {t : Token} {ts : List Token} {n : Node}
    {ns : List Node} (hread : Reading.of s (underParent opened) t = .leaf n)
    (hrest : Parses s opened ts ns) : Parses s opened (t :: ts) (n :: ns)
  | enables {s : PragmaSet} {opened : Option Token} {t : Token} {ts : List Token} {ns : List Node}
    (hread : Reading.of s (underParent opened) t = .enables)
    (hrest : Parses (s.enable t.value) opened ts ns) :
    Parses s opened (t :: ts)
      (if underParent opened then ns else pragma t.value t.line :: ns)
  | selfClosing {s : PragmaSet} {opened : Option Token} {t : Token} {ts : List Token}
    {node : String → List Node → Nat → Node} {name : String} {ns : List Node}
    (hread : Reading.of s (underParent opened) t = .opens node)
    (hself : selfClosing? s t = some name) (hrest : Parses s opened ts ns) :
    Parses s opened (t :: ts) (node name [] t.stop :: ns)
  | closed {s : PragmaSet} {opened : Option Token} {t close : Token} {body ts : List Token}
    {node : String → List Node → Nat → Node} {children ns : List Node}
    (hread : Reading.of s (underParent opened) t = .opens node) (hself : selfClosing? s t = none)
    (hbody : Parses s (some t) body children) (hkind : close.kind = .close)
    (hvalue : close.value = t.value) (hrest : Parses (s.through body) opened ts ns) :
    Parses s opened (t :: (body ++ close :: ts)) (node t.value children close.start :: ns)

variable {s : PragmaSet} {opened : Option Token} {ts : List Token}

theorem Reading.kind_ne_pragma {inParent : Bool} {t : Token} {r : Reading}
    (h : Reading.of s inParent t = r) (hr : r ≠ .enables) : t.kind ≠ .pragma := by
  intro hkind
  refine hr (h.symm.trans ?_)
  rw [Reading.of, hkind]

theorem Reading.kind_of_enables {inParent : Bool} {t : Token}
    (h : Reading.of s inParent t = .enables) : t.kind = .pragma := by
  unfold Reading.of at h
  split at h <;> first | assumption | (repeat' split at h) <;> simp_all

/-- What is read up to a closing tag. -/
structure Consumes (s : PragmaSet) (opened : Option Token) (ts : List Token) (f : Forest ts)
    (used : List Token) : Prop where
  append : ts = used ++ (f.close.toList ++ f.rest)
  parses : Parses s opened used f.nodes
  pragmas : f.pragmas = s.through used
  rest : f.close = none → f.rest = []

/-- A tag in front that changes no pragma goes to what is read. -/
theorem Consumes.cons {t : Token} {used : List Token} {f : Forest ts} {g : Forest (t :: ts)}
    (h : Consumes s opened ts f used) (hkind : t.kind ≠ .pragma)
    (hparses : Parses s opened (t :: used) g.nodes) (hclose : g.close = f.close)
    (hrest : g.rest = f.rest) (hpragmas : g.pragmas = f.pragmas) :
    Consumes s opened (t :: ts) g (t :: used) where
  append := by
    rw [hclose, hrest]
    exact congrArg (t :: ·) h.append
  parses := hparses
  pragmas := by
    rw [hpragmas, PragmaSet.through_cons, if_neg hkind]
    exact h.pragmas
  rest hnone := by
    rw [hclose] at hnone
    rw [hrest]
    exact h.rest hnone

/-- The forest that is built is the one that the tokens up to its closing tag are read as. -/
theorem exists_consumes_of_forest {f : Forest ts} (h : forest opened s ts = .ok f) :
    ∃ used, Consumes s opened ts f used := by
  induction opened, s, ts using forest_induction with
  | nil opened s =>
    cases opened with
    | none =>
      rw [forest_nil_none, Except.ok.injEq] at h
      subst h
      exact ⟨[], rfl, .nil s none, rfl, fun _ => rfl⟩
    | some o => simp [forest_nil_some] at h
  | nothing opened s t ts hread ih =>
    rw [forest_nothing hread] at h
    obtain ⟨g, hg, rfl⟩ := map_eq_ok_iff.mp h
    obtain ⟨used, hused⟩ := ih hg
    exact ⟨t :: used, hused.cons (Reading.kind_ne_pragma hread nofun)
      (.nothing hread hused.parses) rfl rfl rfl⟩
  | leaf opened s t ts n hread ih =>
    rw [forest_leaf hread] at h
    obtain ⟨g, hg, rfl⟩ := map_eq_ok_iff.mp h
    obtain ⟨used, hused⟩ := ih hg
    exact ⟨t :: used, hused.cons (Reading.kind_ne_pragma hread nofun)
      (.leaf hread hused.parses) rfl rfl rfl⟩
  | enables opened s t ts hread ih =>
    rw [forest_enables hread] at h
    obtain ⟨g, hg, rfl⟩ := map_eq_ok_iff.mp h
    obtain ⟨used, happ, hparses, hpragmas, hrest⟩ := ih hg
    have hkind := Reading.kind_of_enables hread
    have hthrough : s.through (t :: used) = (s.enable t.value).through used := by
      rw [PragmaSet.through_cons, if_pos hkind]
    have hnodes := Parses.enables hread hparses
    refine ⟨t :: used, ?_⟩
    split
    · rename_i hparent
      rw [if_pos hparent] at hnodes
      exact ⟨congrArg (t :: ·) happ, hnodes, hpragmas.trans hthrough.symm, hrest⟩
    · rename_i hparent
      rw [if_neg hparent] at hnodes
      exact ⟨congrArg (t :: ·) happ, hnodes, hpragmas.trans hthrough.symm, hrest⟩
  | closes opened s t ts hread =>
    cases opened with
    | none => simp [forest_closes_none hread] at h
    | some o =>
      rw [forest_closes_some hread] at h
      split at h
      · obtain rfl := Except.ok.inj h
        exact ⟨[], rfl, .nil s (some o), rfl, fun h => nomatch h⟩
      · simp at h
  | stray opened s t ts hread => simp [forest_stray hread] at h
  | opensClosed opened s t ts node name hread hself ih =>
    rw [forest_opens_closed hread hself] at h
    obtain ⟨g, hg, rfl⟩ := map_eq_ok_iff.mp h
    obtain ⟨used, hused⟩ := ih hg
    exact ⟨t :: used, hused.cons (Reading.kind_ne_pragma hread nofun)
      (.selfClosing hread hself hused.parses) rfl rfl rfl⟩
  | opens opened s t ts node hread hself ihbody ihrest =>
    rw [forest_opens hread hself] at h
    split at h
    · simp at h
    · rename_i body hbody
      obtain ⟨g, hg, rfl⟩ := map_eq_ok_iff.mp h
      obtain ⟨inner, hinner, hinnerParses, hinnerPragmas, -⟩ := ihbody hbody
      obtain ⟨close, hclose, hkind, hvalue⟩ := (closes_of_forest hbody).exists_close
      obtain ⟨used, happ, hparses, hpragmas, hrest⟩ := ihrest body hg
      rw [hinnerPragmas] at hparses hpragmas
      have hopens := Reading.kind_ne_pragma hread nofun
      have hcloses : close.kind ≠ .pragma := by rw [hkind]; decide
      refine ⟨t :: (inner ++ close :: used), ?_, ?_, ?_, hrest⟩
      · rw [hclose] at hinner
        have hts : ts = inner ++ close :: (used ++ (g.close.toList ++ g.rest)) :=
          hinner.trans (congrArg (fun rest => inner ++ close :: rest) happ)
        change t :: ts = t :: (inner ++ close :: used) ++ (g.close.toList ++ g.rest)
        rw [List.cons_append, List.append_assoc, List.cons_append]
        exact congrArg (t :: ·) hts
      · rw [hclose]
        exact .closed hread hself hinnerParses hkind hvalue hparses
      · rw [PragmaSet.through_cons, if_neg hopens, PragmaSet.through_append,
          PragmaSet.through_cons, if_neg hcloses]
        exact hpragmas

theorem parses_of_ofTokens {nodes : List Node} (h : ofTokens s ts = .ok nodes) :
    Parses s none ts nodes := by
  unfold ofTokens at h
  split at h
  · rename_i f hforest
    obtain rfl := Except.ok.inj h
    obtain ⟨used, happ, hparses, -, hrest⟩ := exists_consumes_of_forest hforest
    have hclose : f.close = none := (closes_of_forest hforest).eq_none
    rw [hrest hclose, hclose] at happ
    simp only [Option.toList_none, List.append_nil] at happ
    exact happ ▸ hparses
  · cases h

/-! ### The tags of a section -/

/-- The bytes that the body of a section covers. -/
def span? : Node → Option (Nat × Nat)
  | sectionNode _ _ _ start stop _ _ => some (start, stop)
  | _ => none

def sectionKind (inverted : Bool) : TokenKind := if inverted then .inverted else .sectionTag

/-- The tokens hold the tag of a section, and the closing tag that matches it unless it closes
itself. The body begins behind the one tag and ends in front of the other. -/
inductive ComesFrom (s : PragmaSet) (ts : List Token) : Node → Prop
  | selfClosing {front back : List Token} {t : Token} {inverted : Bool} {name : String}
    (hts : ts = front ++ t :: back) (hkind : t.kind = sectionKind inverted)
    (hself : selfClosing? (s.through front) t = some name) :
    ComesFrom s ts (sectionNode name inverted [] t.stop t.stop t.delimiters t.line)
  | closed {front body back : List Token} {t close : Token} {inverted : Bool} {children : List Node}
    (hts : ts = front ++ t :: (body ++ close :: back)) (hkind : t.kind = sectionKind inverted)
    (hself : selfClosing? (s.through front) t = none)
    (hbody : Parses (s.through front) (some t) body children)
    (hclose : close.kind = .close) (hvalue : close.value = t.value) :
    ComesFrom s ts (sectionNode t.value inverted children t.stop close.start t.delimiters t.line)

theorem ComesFrom.within {front : List Token} {n : Node} (h : ComesFrom (s.through front) ts n)
    (back : List Token) : ComesFrom s (front ++ (ts ++ back)) n := by
  cases h with
  | @selfClosing inner rest t inverted name hts hkind hself =>
    rw [← PragmaSet.through_append] at hself
    have hwhole : front ++ (ts ++ back) = front ++ inner ++ t :: (rest ++ back) := by
      rw [hts]
      simp only [List.append_assoc, List.cons_append]
    exact .selfClosing hwhole hkind hself
  | @closed inner body rest t close inverted children hts hkind hself hbody hclose hvalue =>
    rw [← PragmaSet.through_append] at hself hbody
    have hwhole : front ++ (ts ++ back) =
        front ++ inner ++ t :: (body ++ close :: (rest ++ back)) := by
      rw [hts]
      simp only [List.append_assoc, List.cons_append]
    exact .closed hwhole hkind hself hbody hclose hvalue

theorem ComesFrom.cons {t : Token} {n : Node} (h : ComesFrom s ts n) (hkind : t.kind ≠ .pragma) :
    ComesFrom s (t :: ts) n := by
  rw [← PragmaSet.through_singleton_of_ne hkind s] at h
  have hwithin := h.within []
  rwa [List.append_nil] at hwithin

theorem Reading.span?_leaf {inParent : Bool} {t : Token} {n : Node}
    (h : Reading.of s inParent t = .leaf n) : n.span? = none := by
  unfold Reading.of at h
  cases inParent <;> split at h <;> (repeat' split at h) <;> simp_all <;> subst h <;> rfl

/-- A tag that opens makes a section, or a node without a span. -/
theorem Reading.section_or_spanless {inParent : Bool} {t : Token}
    {node : String → List Node → Nat → Node} (h : Reading.of s inParent t = .opens node) :
    (∃ inverted, t.kind = sectionKind inverted ∧ ∀ name ns stop,
      node name ns stop = sectionNode name inverted ns t.stop stop t.delimiters t.line) ∨
    ∀ name ns stop, (node name ns stop).span? = none := by
  unfold Reading.of at h
  split at h <;> (repeat' split at h) <;> cases h
  case h_6.isTrue.refl => exact .inr fun _ _ _ => rfl
  case h_9.isFalse.refl => exact .inl ⟨false, ‹_›, fun _ _ _ => rfl⟩
  case h_10.isFalse.refl => exact .inl ⟨true, ‹_›, fun _ _ _ => rfl⟩
  case h_13.isFalse.isTrue.refl => exact .inr fun _ _ _ => rfl

theorem span?_of_opens {inParent : Bool} {t : Token} {node : String → List Node → Nat → Node}
    (h : Reading.of s inParent t = .opens node) (name : String) (ns : List Node) (stop : Nat) :
    (node name ns stop).span? = none ∨ (node name ns stop).span? = some (t.stop, stop) := by
  rcases Reading.section_or_spanless h with ⟨inverted, -, hnode⟩ | hnone
  · right
    rw [hnode]
    rfl
  · exact .inl (hnone name ns stop)

/-- **Each section comes from its tags.** -/
theorem Parses.comesFrom {ns : List Node} (h : Parses s opened ts ns) {n : Node} (hn : n.In ns)
    {span : Nat × Nat} (hspan : n.span? = some span) : ComesFrom s ts n := by
  induction h with
  | nil s opened => exact absurd hn not_in_nil
  | nothing hread _ ih =>
    exact (ih hn).cons (Reading.kind_ne_pragma hread nofun)
  | @leaf s opened t ts m ns hread _ ih =>
    rcases In.cons_iff.mp hn with rfl | hn | hn
    · rw [Reading.span?_leaf hread] at hspan
      cases hspan
    · rw [(Reading.leaf_spec hread).2.1] at hn
      exact absurd hn not_in_nil
    · exact (ih hn).cons (Reading.kind_ne_pragma hread nofun)
  | @enables s opened t ts ns hread _ ih =>
    have hthrough : s.through [t] = s.enable t.value :=
      if_pos (Reading.kind_of_enables hread)
    have hns : n.In ns := by
      split at hn
      · exact hn
      · rcases In.cons_iff.mp hn with rfl | hn | hn
        · cases hspan
        · exact absurd hn not_in_nil
        · exact hn
    have hwithin := (hthrough.symm ▸ ih hns : ComesFrom (s.through [t]) ts n).within []
    rwa [List.append_nil] at hwithin
  | @selfClosing s opened t ts node name ns hread hself _ ih =>
    rcases In.cons_iff.mp hn with rfl | hn | hn
    · rcases Reading.section_or_spanless hread with ⟨inverted, hkind, hnode⟩ | hnone
      · rw [hnode]
        exact .selfClosing (List.nil_append (t :: ts)).symm hkind hself
      · rw [hnone] at hspan
        cases hspan
    · rw [(Reading.opens_spec hread name [] t.stop).1] at hn
      exact absurd hn not_in_nil
    · exact (ih hn).cons (Reading.kind_ne_pragma hread nofun)
  | @closed s opened t close body ts node children ns hread hself hbody hkind hvalue _ ihbody ih =>
    have hopens : t.kind ≠ .pragma := Reading.kind_ne_pragma hread nofun
    have hcloses : close.kind ≠ .pragma := by rw [hkind]; decide
    rcases In.cons_iff.mp hn with rfl | hn | hn
    · rcases Reading.section_or_spanless hread with ⟨inverted, hsection, hnode⟩ | hnone
      · rw [hnode]
        exact .closed (List.nil_append _).symm hsection hself hbody hkind hvalue
      · rw [hnone] at hspan
        cases hspan
    · rw [(Reading.opens_spec hread t.value children close.start).1] at hn
      have hfrom := ihbody hn
      rw [← PragmaSet.through_singleton_of_ne hopens s] at hfrom
      exact hfrom.within (close :: ts)
    · have hthrough : s.through (t :: (body ++ [close])) = s.through body := by
        rw [PragmaSet.through_cons, if_neg hopens, PragmaSet.through_append,
          PragmaSet.through_singleton_of_ne hcloses]
      have hwithin := (hthrough.symm ▸ ih hn :
        ComesFrom (s.through (t :: (body ++ [close]))) ts n).within []
      simpa only [List.append_nil, List.cons_append, List.append_assoc, List.nil_append]
        using hwithin

/-! ### Spans in order -/

/-- The tokens lie between two places of the source, one behind the other. -/
inductive Laid : Nat → Nat → List Token → Prop
  | nil {lo hi : Nat} (h : lo ≤ hi) : Laid lo hi []
  | cons {lo hi : Nat} {t : Token} {ts : List Token} (hlo : lo ≤ t.start) (hle : t.start ≤ t.stop)
    (hrest : Laid t.stop hi ts) : Laid lo hi (t :: ts)

theorem Laid.le {lo hi : Nat} (h : Laid lo hi ts) : lo ≤ hi := by
  induction h with
  | nil h => exact h
  | cons hlo hle _ ih => omega

theorem Laid.split {lo hi : Nat} {body : List Token} {close : Token}
    (h : Laid lo hi (body ++ close :: ts)) :
    Laid lo close.start body ∧ close.start ≤ close.stop ∧ Laid close.stop hi ts := by
  induction body generalizing lo with
  | nil =>
    cases h with
    | cons hlo hle hrest => exact ⟨.nil hlo, hle, hrest⟩
  | cons t body ih =>
    cases h with
    | cons hlo hle hrest =>
      obtain ⟨hbody, hclose, hts⟩ := ih hrest
      exact ⟨.cons hlo hle hbody, hclose, hts⟩

theorem laid_of_pairwise {lo hi : Nat} (hle : lo ≤ hi)
    (hwithin : ∀ t ∈ ts, lo ≤ t.start ∧ t.start ≤ t.stop ∧ t.stop ≤ hi)
    (hordered : ts.Pairwise fun t u => t.stop ≤ u.start) : Laid lo hi ts := by
  induction ts generalizing lo with
  | nil => exact .nil hle
  | cons t ts ih =>
    obtain ⟨⟨hlo, hle, hhi⟩, hwithin⟩ := List.forall_mem_cons.mp hwithin
    obtain ⟨hbefore, hordered⟩ := List.pairwise_cons.mp hordered
    exact .cons hlo hle (ih hhi (fun u hu => ⟨hbefore u hu, (hwithin u hu).2⟩) hordered)

theorem laid_of_scan {d : Delimiters} {source : String} {ts : List Token}
    (h : Token.scan d source = .ok ts) : Laid 0 (Text.byteLength source.toList) ts := by
  unfold Token.scan at h
  split at h
  · rename_i raw hraw
    obtain rfl := Except.ok.inj h
    have hlossless := Token.lossless_settle (Token.tiling_of_pieces hraw)
    refine laid_of_pairwise (Nat.zero_le _) (fun t ht => ?_) hlossless.ordered
    obtain ⟨hlt, hle⟩ := hlossless.within t ht
    exact ⟨Nat.zero_le _, Nat.le_of_lt hlt, hle⟩
  · cases h

/-- Of two nodes side by side, all sections in the first end before any in the second begins. -/
def Apart (ns : List Node) : Prop :=
  ns.Pairwise fun n m => ∀ a b : Node, a.In [n] → b.In [m] →
    ∀ p ∈ a.span?, ∀ q ∈ b.span?, p.2 ≤ q.1

/-- The sections in the trees lie between two places of the source, those below a section in its
span, and those that are not below one another one behind the other. -/
structure Nested (lo hi : Nat) (ns : List Node) : Prop where
  within : ∀ n : Node, n.In ns → ∀ p ∈ n.span?, lo ≤ p.1 ∧ p.1 ≤ p.2 ∧ p.2 ≤ hi
  apart : Apart ns
  apart_below : ∀ n : Node, n.In ns → Apart n.children
  below : ∀ n : Node, n.In ns → ∀ p ∈ n.span?, ∀ m : Node, m.In n.children →
    ∀ q ∈ m.span?, p.1 ≤ q.1 ∧ q.2 ≤ p.2

theorem nested_nil (lo hi : Nat) : Nested lo hi [] where
  within _ hn := absurd hn not_in_nil
  apart := .nil
  apart_below _ hn := absurd hn not_in_nil
  below _ hn := absurd hn not_in_nil

theorem Nested.mono {lo lo' hi : Nat} {ns : List Node} (h : Nested lo hi ns) (hlo : lo' ≤ lo) :
    Nested lo' hi ns where
  within n hn p hp := ⟨Nat.le_trans hlo (h.within n hn p hp).1, (h.within n hn p hp).2⟩
  apart := h.apart
  apart_below := h.apart_below
  below := h.below

/-- A node in front of others. What is below it lies between `a` and `b`, and so does its span if
it has one. -/
theorem Nested.cons {lo a b mid hi : Nat} {n : Node} {ns : List Node}
    (hspan : n.span? = none ∨ n.span? = some (a, b)) (hchildren : Nested a b n.children)
    (hns : Nested mid hi ns) (hlo : lo ≤ a) (hab : a ≤ b) (hmid : b ≤ mid) (hhi : mid ≤ hi) :
    Nested lo hi (n :: ns) := by
  have hhead : ∀ m : Node, m.In [n] → ∀ p ∈ m.span?, a ≤ p.1 ∧ p.1 ≤ p.2 ∧ p.2 ≤ b := by
    intro m hm p hp
    rcases In.singleton_iff.mp hm with rfl | hm
    · rcases hspan with hnone | hsome
      · rw [hnone] at hp
        cases hp
      · rw [hsome] at hp
        cases hp
        exact ⟨Nat.le_refl a, hab, Nat.le_refl b⟩
    · exact hchildren.within m hm p hp
  refine ⟨fun m hm p hp => ?_, List.pairwise_cons.mpr ⟨?_, hns.apart⟩, fun m hm => ?_,
    fun m hm p hp => ?_⟩
  · rcases In.append_iff.mp (List.singleton_append ▸ hm : m.In ([n] ++ ns)) with hm | hm
    · have := hhead m hm p hp
      omega
    · have := hns.within m hm p hp
      omega
  · intro m hm x y hx hy p hp q hq
    have hy : y.In ns := by
      rcases In.singleton_iff.mp hy with rfl | hy
      · exact .here hm
      · exact .inside hm hy
    have := hhead x hx p hp
    have := hns.within y hy q hq
    omega
  · rcases In.cons_iff.mp hm with rfl | hm | hm
    · exact hchildren.apart
    · exact hchildren.apart_below m hm
    · exact hns.apart_below m hm
  · rcases In.cons_iff.mp hm with rfl | hm | hm
    · rcases hspan with hnone | hsome
      · rw [hnone] at hp
        cases hp
      · rw [hsome] at hp
        cases hp
        exact fun k hk q hq => ⟨(hchildren.within k hk q hq).1, (hchildren.within k hk q hq).2.2⟩
    · exact hchildren.below m hm p hp
    · exact hns.below m hm p hp

/-- **Sections are nested like their tags.** -/
theorem Parses.nested {ns : List Node} (h : Parses s opened ts ns) {lo hi : Nat}
    (hlaid : Laid lo hi ts) : Nested lo hi ns := by
  induction h generalizing lo hi with
  | nil s opened => exact nested_nil lo hi
  | nothing _ _ ih =>
    cases hlaid with
    | cons hlo hle hrest => exact (ih hrest).mono (Nat.le_trans hlo hle)
  | leaf hread _ ih =>
    cases hlaid with
    | cons hlo hle hrest =>
      refine .cons (.inl (Reading.span?_leaf hread)) ?_ (ih hrest) (Nat.le_trans hlo hle)
        (Nat.le_refl _) (Nat.le_refl _) hrest.le
      rw [(Reading.leaf_spec hread).2.1]
      exact nested_nil _ _
  | enables _ _ ih =>
    cases hlaid with
    | cons hlo hle hrest =>
      split
      · exact (ih hrest).mono (Nat.le_trans hlo hle)
      · exact .cons (.inl rfl) (nested_nil _ _) (ih hrest) (Nat.le_trans hlo hle) (Nat.le_refl _)
          (Nat.le_refl _) hrest.le
  | @selfClosing s opened t ts node name ns hread _ _ ih =>
    cases hlaid with
    | cons hlo hle hrest =>
      refine .cons (span?_of_opens hread name [] t.stop) ?_ (ih hrest) (Nat.le_trans hlo hle)
        (Nat.le_refl _) (Nat.le_refl _) hrest.le
      rw [(Reading.opens_spec hread name [] t.stop).1]
      exact nested_nil _ _
  | @closed s opened t close body ts node children ns hread _ _ _ _ _ ihbody ih =>
    cases hlaid with
    | cons hlo hle hrest =>
      obtain ⟨hbody, hclose, hts⟩ := hrest.split
      refine .cons (span?_of_opens hread t.value children close.start) ?_ (ih hts)
        (Nat.le_trans hlo hle) hbody.le hclose hts.le
      rw [(Reading.opens_spec hread t.value children close.start).1]
      exact ihbody hbody

/-! ### Bodies -/

/-- A token begins and ends between two characters of its source. -/
theorem exists_ends_of_scan {d : Delimiters} {source : String} {ts : List Token}
    (h : Token.scan d source = .ok ts) {t : Token} (ht : t ∈ ts) :
    (∃ before rest, source.toList = before ++ rest ∧ t.start = Text.byteLength before) ∧
      ∃ before rest, source.toList = before ++ rest ∧ t.stop = Text.byteLength before := by
  unfold Token.scan at h
  split at h
  · rename_i raw hraw
    obtain rfl := Except.ok.inj h
    have htiling := Token.tiling_of_pieces hraw
    obtain ⟨before, lexeme, after, hsource, hfits⟩ :=
      htiling.exists_fits (Token.bare_mem_of_mem_settle htiling ht)
    have hstart : t.start = 0 + Text.byteLength before := hfits.start_eq
    have hstop : t.stop = 0 + Text.byteLength before + Text.byteLength lexeme := hfits.stop_eq
    rw [Nat.zero_add] at hstart hstop
    refine ⟨⟨before, lexeme ++ after, by rw [hsource, List.append_assoc], hstart⟩,
      before ++ lexeme, after, hsource, ?_⟩
    rw [hstop, Text.byteLength_append]
  · cases h

/-- The body of a section in its source: the text between the two places, which compiling takes. -/
theorem exists_body {source before before' rest rest' : List Char} {start stop : Nat}
    (hstart : source = before ++ rest) (hstop : source = before' ++ rest')
    (hbefore : start = Text.byteLength before) (hbefore' : stop = Text.byteLength before')
    (hle : start ≤ stop) :
    ∃ body, before' = before ++ body ∧ Text.sliceBytes? start stop source = some body ∧
      Template.bodyText source start stop = String.ofList body := by
  obtain ⟨body, rfl⟩ := Text.exists_append_of_byteLength_le hstart hstop (hbefore ▸ hbefore' ▸ hle)
  have hslice : Text.sliceBytes? start stop source = some body := by
    rw [hstop, hbefore, hbefore', Text.byteLength_append]
    exact Text.sliceBytes?_append before body rest'
  exact ⟨body, rfl, hslice, by rw [Template.bodyText, hslice, Option.getD_some]⟩

/-- The ends of a section's span are places between two characters. -/
theorem ComesFrom.exists_ends {d : Delimiters} {source : String} {n : Node}
    (hscan : Token.scan d source = .ok ts) (h : ComesFrom s ts n) {start stop : Nat}
    (hspan : n.span? = some (start, stop)) :
    (∃ before rest, source.toList = before ++ rest ∧ start = Text.byteLength before) ∧
      ∃ before rest, source.toList = before ++ rest ∧ stop = Text.byteLength before := by
  cases h with
  | selfClosing hts hkind hself =>
    cases hspan
    have hends := exists_ends_of_scan hscan (hts ▸ List.mem_append_cons_self)
    exact ⟨hends.2, hends.2⟩
  | @closed front body back t close inverted children hts hkind hself hbody hclose hvalue =>
    cases hspan
    have htag : t ∈ ts := hts ▸ List.mem_append_cons_self
    have hcloses : close ∈ ts := by
      rw [hts]
      exact List.mem_append_right _ (List.mem_cons_of_mem t List.mem_append_cons_self)
    exact ⟨(exists_ends_of_scan hscan htag).2, (exists_ends_of_scan hscan hcloses).1⟩

/-- **The span of a section is its literal body, from its tag to the closing tag that matches it.**
The source has a text between the two, which is what compiling takes for the body. The sections
below a section lie in its span, and of two that are not below one another the second begins where
the first has ended. -/
theorem spans_of_scan {d : Delimiters} {source : String} {nodes : List Node}
    (hscan : Token.scan d source = .ok ts) (hparse : ofTokens s ts = .ok nodes) :
    (∀ n : Node, n.In nodes → ∀ start stop, n.span? = some (start, stop) →
      ComesFrom s ts n ∧ start ≤ stop ∧ stop ≤ Text.byteLength source.toList ∧
      (∃ before body after, source.toList = before ++ body ++ after ∧
        start = Text.byteLength before ∧ stop = Text.byteLength (before ++ body) ∧
        Text.sliceBytes? start stop source.toList = some body ∧
        Template.bodyText source.toList start stop = String.ofList body) ∧
      ∀ m : Node, m.In n.children → ∀ p ∈ m.span?, start ≤ p.1 ∧ p.2 ≤ stop) ∧
    Apart nodes ∧ ∀ n : Node, n.In nodes → Apart n.children := by
  have hparses := parses_of_ofTokens hparse
  have hnested := hparses.nested (laid_of_scan hscan)
  refine ⟨fun n hn start stop hspan => ?_, hnested.apart, hnested.apart_below⟩
  have hfrom := hparses.comesFrom hn hspan
  obtain ⟨-, hle, hwithin⟩ := hnested.within n hn (start, stop) hspan
  obtain ⟨⟨before, rest, hstart, hbefore⟩, before', rest', hstop, hbefore'⟩ :=
    hfrom.exists_ends hscan hspan
  obtain ⟨body, rfl, hslice, hbody⟩ := exists_body hstart hstop hbefore hbefore' hle
  exact ⟨hfrom, hle, hwithin, ⟨before, body, rest', hstop, hbefore, hbefore', hslice, hbody⟩,
    hnested.below n hn (start, stop) hspan⟩

/-- A section in a block of a parent, and in it a section that closes itself. -/
theorem spans_of_scan_block :
    let d := Delimiters.standard
    let source := "\x7b\x7b<p\x7d\x7d\x7b\x7b$b\x7d\x7d\x7b\x7b#a\x7d\x7dé" ++
      "\x7b\x7b^c/\x7d\x7d\x7b\x7b/a\x7d\x7d\x7b\x7b/b\x7d\x7d\x7b\x7b/p\x7d\x7d"
    let s := PragmaSet.ofList [.blocks, .selfClosing]
    let ts : List Token :=
      [⟨.parent, "p", 1, 0, 6, d, none⟩, ⟨.block, "b", 1, 6, 12, d, none⟩,
        ⟨.sectionTag, "a", 1, 12, 18, d, none⟩, ⟨.text, "é", 1, 18, 20, d, none⟩,
        ⟨.inverted, "c/", 1, 20, 27, d, none⟩, ⟨.close, "a", 1, 27, 33, d, none⟩,
        ⟨.close, "b", 1, 33, 39, d, none⟩, ⟨.close, "p", 1, 39, 45, d, none⟩]
    let inner := sectionNode "c" true [] 27 27 d 1
    let outer := sectionNode "a" false [text "é", inner] 18 27 d 1
    let nodes := [parent "p" none [block "b" [outer] none 1] 1]
    Token.scan d source = .ok ts ∧ ofTokens s ts = .ok nodes ∧ ComesFrom s ts outer ∧
      Template.bodyText source.toList 18 27 = "é\x7b\x7b^c/\x7d\x7d" ∧
      (∀ p ∈ inner.span?, 18 ≤ p.1 ∧ p.2 ≤ 27) ∧ Apart [text "é", inner] := by
  intro d source s ts inner outer nodes
  have hscan : Token.scan d source = .ok ts := by decide +kernel
  have hparse : ofTokens s ts = .ok nodes := by
    rw [ofTokens_run]
    cbv
  have houter : outer.In nodes := .inside List.mem_cons_self
    (.inside List.mem_cons_self (.here List.mem_cons_self))
  have hinner : inner.In outer.children := .here (List.mem_cons_of_mem _ List.mem_cons_self)
  obtain ⟨hspans, -, hbelow⟩ := spans_of_scan hscan hparse
  obtain ⟨hfrom, -, -, -, hchildren⟩ := hspans outer houter 18 27 rfl
  exact ⟨hscan, hparse, hfrom, by decide +kernel, hchildren inner hinner, hbelow outer houter⟩

end Mustache.Node
