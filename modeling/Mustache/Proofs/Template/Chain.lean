import Mustache.Proofs.Engine.Sound
import Mustache.Proofs.Node.Joined
import Mustache.Proofs.Template.Joined
import Mustache.Proofs.Token.OneLine

/-!
Templates of one line that inherit from each other: a link is one parent tag with overrides of text
in it, and at the end of a chain stands a line of texts and blocks. Main statements: `tree_of_link`
and `tree_of_parts` about their trees, `steps_of_link` and `steps_of_line` about their steps.
-/

namespace Mustache

/-- A block tag by its name, and the text in it. -/
structure Inset where
  name : String
  text : String
deriving DecidableEq, Repr

/-- A template of one parent tag: the name of the template it inherits from, and its overrides. -/
structure Link where
  parent : String
  overrides : List Inset
deriving DecidableEq, Repr

/-- A part of the line at the end of a chain: a text, or a block with its default text. -/
inductive Part
  | text (s : String)
  | block (b : Inset)
deriving DecidableEq, Repr

namespace Inset

def items (b : Inset) : List Token.Item := [.tag .block b.name, .text b.text, .tag .close b.name]

end Inset

namespace Link

def items (l : Link) : List Token.Item :=
  .tag .parent l.parent :: (l.overrides.flatMap Inset.items ++ [.tag .close l.parent])

end Link

namespace Part

def items : Part → List Token.Item
  | text s => [.text s]
  | block b => b.items

def isText : Part → Bool
  | text _ => true
  | block _ => false

/-- A text that ends in a newline. -/
def endsLine : Part → Bool
  | text s => s.toList.getLast? == some '\n'
  | block _ => false

end Part

/-! ### What can be written -/

/-- The name of a tag is read as it is written, on one line, and the tag does not close itself. -/
structure NameFits (d : Delimiters) (s : PragmaSet) (name : String) : Prop where
  newline_notMem : '\n' ∉ name.toList
  trim : Text.trim name.toList = name.toList
  closing : Text.EndsBefore d.closing.toList name.toList
  slash : s.contains .selfClosing = true → name.toList.getLast? ≠ some '/'

/-- The text in a block is plain, on one line, and not blank. -/
structure Inset.Fits (d : Delimiters) (s : PragmaSet) (b : Inset) : Prop where
  name : NameFits d s b.name
  newline_notMem : '\n' ∉ b.text.toList
  shows : ∃ c ∈ b.text.toList, Text.isSpace c = false
  opening : Text.EndsBefore d.opening.toList b.text.toList

/-- The tags of a link and its overrides are read as they are written. -/
structure Link.Fits (d : Delimiters) (s : PragmaSet) (l : Link) : Prop where
  parent : NameFits d s l.parent
  overrides : ∀ b ∈ l.overrides, b.Fits d s

/-- A text cannot be taken for a tag, and has no newline but at its end. -/
def Part.Fits (d : Delimiters) (s : PragmaSet) : Part → Prop
  | text t => t ≠ "" ∧ '\n' ∉ t.toList.dropLast ∧ Text.EndsBefore d.opening.toList t.toList
  | block b => b.Fits d s

/-- Texts and blocks that make one line, which may end in a newline. -/
structure PartsFit (d : Delimiters) (s : PragmaSet) (parts : List Part) : Prop where
  fits : ∀ p ∈ parts, p.Fits d s
  apart : parts.IsChain fun p q => p.isText = true → q.isText = false
  newline : ∀ p ∈ parts.dropLast, p.endsLine = false

section

variable {d : Delimiters} {s : PragmaSet}

instance (pattern cs : List Char) : Decidable (Text.EndsBefore pattern cs) :=
  inferInstanceAs (Decidable (_ = _))

instance (name : String) : Decidable (NameFits d s name) :=
  decidable_of_iff ('\n' ∉ name.toList ∧ Text.trim name.toList = name.toList ∧
    Text.EndsBefore d.closing.toList name.toList ∧
    (s.contains .selfClosing = true → name.toList.getLast? ≠ some '/'))
    ⟨fun ⟨hn, ht, hc, hs⟩ => ⟨hn, ht, hc, hs⟩, fun ⟨hn, ht, hc, hs⟩ => ⟨hn, ht, hc, hs⟩⟩

instance (b : Inset) : Decidable (b.Fits d s) :=
  decidable_of_iff (NameFits d s b.name ∧ '\n' ∉ b.text.toList ∧
    (b.text.toList.any fun c => !Text.isSpace c) = true ∧
    Text.EndsBefore d.opening.toList b.text.toList)
    ⟨fun ⟨hn, hl, hs, ho⟩ => ⟨hn, hl, by simpa using hs, ho⟩,
      fun ⟨hn, hl, hs, ho⟩ => ⟨hn, hl, by simpa using hs, ho⟩⟩

instance (l : Link) : Decidable (l.Fits d s) :=
  decidable_of_iff (NameFits d s l.parent ∧ ∀ b ∈ l.overrides, b.Fits d s)
    ⟨fun ⟨hp, ho⟩ => ⟨hp, ho⟩, fun ⟨hp, ho⟩ => ⟨hp, ho⟩⟩

instance : (p : Part) → Decidable (p.Fits d s)
  | .text t => inferInstanceAs (Decidable (t ≠ "" ∧ '\n' ∉ t.toList.dropLast ∧
      Text.EndsBefore d.opening.toList t.toList))
  | .block b => inferInstanceAs (Decidable (b.Fits d s))

instance (parts : List Part) : Decidable (PartsFit d s parts) :=
  decidable_of_iff ((∀ p ∈ parts, p.Fits d s) ∧
    (parts.IsChain fun p q => p.isText = true → q.isText = false) ∧
    ∀ p ∈ parts.dropLast, p.endsLine = false)
    ⟨fun ⟨hf, ha, hn⟩ => ⟨hf, ha, hn⟩, fun ⟨hf, ha, hn⟩ => ⟨hf, ha, hn⟩⟩

theorem NameFits.onLine {name : String} (h : NameFits d s name) {kind : TokenKind}
    (hkind : kind = .parent ∨ kind = .block ∨ kind = .close) :
    (Token.Item.tag kind name).OnLine d :=
  ⟨hkind, h.newline_notMem, h.trim, h.closing⟩

theorem Inset.Fits.onLine {b : Inset} (h : b.Fits d s) : ∀ i ∈ b.items, i.OnLine d := by
  have hne : b.text ≠ "" := by
    obtain ⟨c, hc, -⟩ := h.shows
    intro hnil
    rw [hnil] at hc
    cases hc
  refine List.forall_mem_cons.mpr ⟨h.name.onLine (.inr (.inl rfl)), List.forall_mem_cons.mpr ⟨?_,
    List.forall_mem_singleton.mpr (h.name.onLine (.inr (.inr rfl)))⟩⟩
  exact ⟨hne, fun hmem => h.newline_notMem (List.dropLast_subset _ hmem), h.opening⟩

theorem Inset.Fits.not_endsLine {b : Inset} (h : b.Fits d s) :
    ∀ i ∈ b.items, i.endsLine = false := by
  refine List.forall_mem_cons.mpr ⟨rfl, List.forall_mem_cons.mpr ⟨?_,
    List.forall_mem_singleton.mpr rfl⟩⟩
  exact beq_eq_false_iff_ne.mpr fun hlast => h.newline_notMem (List.mem_of_mem_getLast? hlast)

theorem Inset.Fits.shows_text {b : Inset} (h : b.Fits d s) : ∃ i ∈ b.items, i.Shows :=
  ⟨.text b.text, List.mem_cons_of_mem _ List.mem_cons_self, h.shows⟩

/-! ### Scanning -/

theorem exists_of_forall₂_append {α β : Type} {R : α → β → Prop} {as bs : List α} {cs : List β}
    (h : List.Forall₂ R (as ++ bs) cs) :
    ∃ cs₁ cs₂, cs = cs₁ ++ cs₂ ∧ List.Forall₂ R as cs₁ ∧ List.Forall₂ R bs cs₂ := by
  induction as generalizing cs with
  | nil => exact ⟨[], cs, rfl, .nil, h⟩
  | cons a as ih =>
    obtain ⟨c, cs, hac, hrest, rfl⟩ := List.forall₂_cons_left_iff.mp h
    obtain ⟨cs₁, cs₂, rfl, h₁, h₂⟩ := ih hrest
    exact ⟨c :: cs₁, cs₂, rfl, .cons hac h₁, h₂⟩

/-- No text is followed by a text. -/
abbrev Apart (items : List Token.Item) : Prop :=
  items.IsChain fun i j => i.isText = true → j.isText = false

theorem apart_cons {i : Token.Item} {items : List Token.Item} (hi : i.isText = false)
    (h : Apart items) : Apart (i :: items) := by
  cases items with
  | nil => exact .singleton i
  | cons j items =>
    refine List.isChain_cons_cons.mpr ⟨fun htext => ?_, h⟩
    rw [hi] at htext
    cases htext

theorem apart_inset (b : Inset) {items : List Token.Item} (h : Apart items) :
    Apart (b.items ++ items) :=
  apart_cons rfl (List.isChain_cons_cons.mpr ⟨fun _ => rfl, apart_cons rfl h⟩)

theorem apart_insets (bs : List Inset) {items : List Token.Item} (h : Apart items) :
    Apart (bs.flatMap Inset.items ++ items) := by
  induction bs with
  | nil => exact h
  | cons b bs ih =>
    rw [List.flatMap_cons, List.append_assoc]
    exact apart_inset b ih

theorem apart_parts {parts : List Part}
    (h : parts.IsChain fun p q => p.isText = true → q.isText = false) :
    Apart (parts.flatMap Part.items) := by
  induction parts with
  | nil => exact .nil
  | cons p parts ih =>
    have hrest := ih h.tail
    rw [List.flatMap_cons]
    cases p with
    | block b => exact apart_inset b hrest
    | text s =>
      cases parts with
      | nil => exact .singleton _
      | cons q parts =>
        have hq := (List.isChain_cons_cons.mp h).1 rfl
        cases q with
        | text s' => cases hq
        | block b => exact List.isChain_cons_cons.mpr ⟨fun _ => rfl, hrest⟩

theorem Link.Fits.onLine {l : Link} (h : l.Fits d s) : ∀ i ∈ l.items, i.OnLine d := by
  refine List.forall_mem_cons.mpr ⟨h.parent.onLine (.inl rfl), fun i hi => ?_⟩
  rcases List.mem_append.mp hi with hi | hi
  · obtain ⟨b, hb, hi⟩ := List.mem_flatMap.mp hi
    exact (h.overrides b hb).onLine i hi
  · rw [List.mem_singleton.mp hi]
    exact h.parent.onLine (.inr (.inr rfl))

theorem Link.Fits.not_endsLine {l : Link} (h : l.Fits d s) :
    ∀ i ∈ l.items, i.endsLine = false := by
  refine List.forall_mem_cons.mpr ⟨rfl, fun i hi => ?_⟩
  rcases List.mem_append.mp hi with hi | hi
  · obtain ⟨b, hb, hi⟩ := List.mem_flatMap.mp hi
    exact (h.overrides b hb).not_endsLine i hi
  · rw [List.mem_singleton.mp hi]
    rfl

/-- The tokens of a link are its items. The tag of one without overrides has an indent, of no
characters. -/
theorem scan_link (hd : d.Writable) {l : Link} (h : l.Fits d s) :
    ∃ t ts u, Token.scan d (Token.printAll d l.items) = .ok (t :: (ts ++ [u])) ∧
      t.kind = .parent ∧ t.value = l.parent ∧ (t.indent = none ∨ t.indent = some "") ∧
      List.Forall₂ Token.Spells (l.overrides.flatMap Inset.items) ts ∧
      u.kind = .close ∧ u.value = l.parent := by
  obtain ⟨parent, overrides⟩ := l
  cases overrides with
  | nil =>
    obtain ⟨t, u, hscan, hkind, hvalue, hindent, hclose⟩ :=
      Token.scan_empty_parent hd (h.parent.onLine (.inl rfl))
    exact ⟨t, [], u, hscan, hkind, hvalue, .inr hindent, .nil, hclose⟩
  | cons b bs =>
    have hapart : Apart (Link.items ⟨parent, b :: bs⟩) :=
      apart_cons rfl (apart_insets (b :: bs) (.singleton _))
    have hshows : ∃ i ∈ Link.items ⟨parent, b :: bs⟩, i.Shows := by
      obtain ⟨i, hi, hshows⟩ := (h.overrides b List.mem_cons_self).shows_text
      exact ⟨i, List.mem_cons_of_mem _ (List.mem_append_left _ (List.mem_append_left _ hi)), hshows⟩
    obtain ⟨ts, hscan, hspells⟩ := Token.scan_of_onLine hd h.onLine hapart
      (fun i hi => h.not_endsLine i (List.dropLast_subset _ hi)) (.inr hshows)
    obtain ⟨t, rest, ht, hrest, rfl⟩ := List.forall₂_cons_left_iff.mp hspells
    obtain ⟨ts, last, rfl, hinsets, hlast⟩ := exists_of_forall₂_append hrest
    obtain ⟨u, none, hu, hnone, rfl⟩ := List.forall₂_cons_left_iff.mp hlast
    obtain rfl := List.forall₂_nil_left_iff.mp hnone
    exact ⟨t, ts, u, hscan, ht.kind_eq, ht.value_eq, .inl ht.indent_eq, hinsets, hu.kind_eq,
      hu.value_eq⟩

theorem PartsFit.tail {p : Part} {parts : List Part} (h : PartsFit d s (p :: parts)) :
    PartsFit d s parts where
  fits q hq := h.fits q (List.mem_cons_of_mem p hq)
  apart := h.apart.tail
  newline q hq := by
    refine h.newline q ?_
    rw [List.dropLast_cons_of_ne_nil (List.ne_nil_of_mem (List.dropLast_subset parts hq))]
    exact List.mem_cons_of_mem p hq

theorem PartsFit.onLine {parts : List Part} (h : PartsFit d s parts) :
    ∀ i ∈ parts.flatMap Part.items, i.OnLine d := by
  intro i hi
  obtain ⟨p, hp, hi⟩ := List.mem_flatMap.mp hi
  cases p with
  | text text =>
    rw [List.mem_singleton.mp hi]
    exact h.fits _ hp
  | block b => exact (h.fits _ hp).onLine i hi

theorem PartsFit.not_endsLine {parts : List Part} (h : PartsFit d s parts) :
    ∀ i ∈ (parts.flatMap Part.items).dropLast, i.endsLine = false := by
  induction parts with
  | nil => exact fun i hi => nomatch hi
  | cons p parts ih =>
    intro i hi
    cases parts with
    | nil =>
      rw [List.flatMap_cons, List.flatMap_nil, List.append_nil] at hi
      cases p with
      | text text => cases hi
      | block b =>
        have hb : b.Fits d s := h.fits _ List.mem_cons_self
        exact hb.not_endsLine i (List.dropLast_subset _ hi)
    | cons q parts =>
      have hne : (q :: parts).flatMap Part.items ≠ [] := by
        rw [List.flatMap_cons]
        cases q <;> exact List.cons_ne_nil _ _
      rw [List.flatMap_cons, List.dropLast_append_of_ne_nil hne] at hi
      rcases List.mem_append.mp hi with hi | hi
      · cases p with
        | text text =>
          rw [List.mem_singleton.mp hi]
          refine h.newline (.text text) ?_
          rw [List.dropLast_cons_of_ne_nil (List.cons_ne_nil q parts)]
          exact List.mem_cons_self
        | block b =>
          have hb : b.Fits d s := h.fits _ List.mem_cons_self
          exact hb.not_endsLine i hi
      · exact ih h.tail i hi

/-- The tokens of a line of parts are its items. -/
theorem scan_parts (hd : d.Writable) {parts : List Part} (h : PartsFit d s parts) :
    ∃ ts, Token.scan d (Token.printAll d (parts.flatMap Part.items)) = .ok ts ∧
      List.Forall₂ Token.Spells (parts.flatMap Part.items) ts := by
  refine Token.scan_of_onLine hd h.onLine (apart_parts h.apart) h.not_endsLine ?_
  by_cases htexts : ∃ b, Part.block b ∈ parts
  · obtain ⟨b, hb⟩ := htexts
    have hfits : b.Fits d s := h.fits _ hb
    obtain ⟨i, hi, hshows⟩ := hfits.shows_text
    exact .inr ⟨i, List.mem_flatMap.mpr ⟨.block b, hb, hi⟩, hshows⟩
  · refine .inl fun i hi => ?_
    obtain ⟨p, hp, hi⟩ := List.mem_flatMap.mp hi
    cases p with
    | text text =>
      rw [List.mem_singleton.mp hi]
      rfl
    | block b => exact absurd ⟨b, hp⟩ htexts

/-! ### Parsing -/

open Node (Machine)

/-- The node is the block of the tag. -/
def Inset.Makes (b : Inset) (n : Node) : Prop :=
  ∃ line, n = .block b.name [.text b.text] none line

def Part.Makes : Part → Node → Prop
  | text s, n => n = .text s
  | block b, n => b.Makes n

theorem closesItself?_of_fits {m : Machine} {name : String} (h : NameFits d m.pragmas name)
    {t : Token} (ht : t.value = name) : m.closesItself? t = none :=
  Machine.closesItself?_eq_none (by rw [ht]; exact h.slash)

theorem read_inset {m : Machine} (hblocks : m.pragmas.contains .blocks = true) {b : Inset}
    (hb : b.Fits d m.pragmas) {ts : List Token} (h : List.Forall₂ Token.Spells b.items ts) :
    ∃ n, b.Makes n ∧ m.read ts = .ok (m.add n) := by
  obtain ⟨t, ts₁, ht, h₁, rfl⟩ := List.forall₂_cons_left_iff.mp h
  obtain ⟨u, ts₂, hu, h₂, rfl⟩ := List.forall₂_cons_left_iff.mp h₁
  obtain ⟨v, ts₃, hv, h₃, rfl⟩ := List.forall₂_cons_left_iff.mp h₂
  obtain rfl := List.forall₂_nil_left_iff.mp h₃
  have htkind : t.kind = .block := ht.kind_eq
  have hopen : m.canOpen t = true := by
    simp [Machine.canOpen, htkind, hblocks]
  have htext : Node.ofTokens m.pragmas [u] = .ok [.text b.text] := by
    have hukind : u.kind = .text := hu.kind_eq
    rw [Node.ofTokens_run, show b.text = u.value from hu.value_eq.symm]
    simp [Machine.run, Machine.step, hukind, Machine.start, Machine.inParent, Machine.top?,
      Machine.add, Machine.finish]
  have hvkind : v.kind = .close := hv.kind_eq
  have hread := Machine.read_block htkind hopen
    (closesItself?_of_fits hb.name ht.value_eq) htext hvkind
    (hv.value_eq.trans ht.value_eq.symm)
  have hpragmas : m.pragmas.through [u] = m.pragmas :=
    Node.through_of_plain (by simp [show u.kind = .text from hu.kind_eq])
  rw [hpragmas, show t.value = b.name from ht.value_eq, ht.indent_eq] at hread
  exact ⟨_, ⟨t.line, rfl⟩, hread⟩

theorem read_insets {bs : List Inset} {m : Machine} (hblocks : m.pragmas.contains .blocks = true)
    (hbs : ∀ b ∈ bs, b.Fits d m.pragmas) {ts : List Token}
    (h : List.Forall₂ Token.Spells (bs.flatMap Inset.items) ts) :
    ∃ ns, List.Forall₂ Inset.Makes bs ns ∧ m.read ts = .ok (m.addAll m.pragmas ns) := by
  induction bs generalizing m ts with
  | nil =>
    obtain rfl := List.forall₂_nil_left_iff.mp h
    exact ⟨[], .nil, by rw [Machine.addAll_nil]; rfl⟩
  | cons b bs ih =>
    obtain ⟨hb, hbs⟩ := List.forall_mem_cons.mp hbs
    rw [List.flatMap_cons] at h
    obtain ⟨ts, us, rfl, hfirst, hrest⟩ := exists_of_forall₂_append h
    obtain ⟨n, hn, hread⟩ := read_inset hblocks hb hfirst
    rw [← m.pragmas_add n] at hblocks
    have hbs' : ∀ b ∈ bs, b.Fits d (m.add n).pragmas := by
      rwa [m.pragmas_add n]
    obtain ⟨ns, hns, hread'⟩ := ih hblocks hbs' hrest
    refine ⟨n :: ns, .cons hn hns, ?_⟩
    rw [Machine.read_append, hread, Machine.addAll_cons, ← m.pragmas_add n]
    exact hread'

/-- A link is a parent node with its overrides. -/
theorem tree_of_link (hd : d.Writable) (hblocks : s.contains .blocks = true) {l : Link}
    (h : l.Fits d s) : ∃ ts tree own line ns, Token.scan d (Token.printAll d l.items) = .ok ts ∧
      Node.ofTokens s ts = .ok tree ∧ tree = [.parent l.parent own ns line] ∧
      (own = none ∨ own = some "") ∧ List.Forall₂ Inset.Makes l.overrides ns := by
  obtain ⟨t, ts, u, hscan, htkind, htvalue, hindent, hspells, hukind, huvalue⟩ := scan_link hd h
  obtain ⟨ns, hns, hread⟩ := read_insets (m := ⟨s, [⟨t, []⟩], []⟩) hblocks h.overrides hspells
  have htree := Node.ofTokens_parent hblocks htkind
    (closesItself?_of_fits (m := Machine.start s) h.parent htvalue) hread hukind
    (huvalue.trans htvalue.symm)
  rw [htvalue] at htree
  exact ⟨_, _, t.indent, t.line, ns, hscan, htree, rfl, hindent, hns⟩

theorem read_part {m : Machine} (hblocks : m.pragmas.contains .blocks = true)
    (houtside : m.inParent = false) {p : Part} (hp : p.Fits d m.pragmas)
    {ts : List Token} (h : List.Forall₂ Token.Spells p.items ts) :
    ∃ n, p.Makes n ∧ m.read ts = .ok (m.add n) := by
  cases p with
  | block b => exact read_inset hblocks hp h
  | text text =>
    obtain ⟨t, ts, ht, hrest, rfl⟩ := List.forall₂_cons_left_iff.mp h
    obtain rfl := List.forall₂_nil_left_iff.mp hrest
    have hstep : m.step t = .ok (m.add (.text text)) := by
      have hkind : t.kind = .text := ht.kind_eq
      simp only [Machine.step, hkind, houtside]
      rw [show t.value = text from ht.value_eq]
      rfl
    refine ⟨.text text, rfl, ?_⟩
    rw [Machine.read_cons_ok hstep]
    rfl

theorem read_parts {parts : List Part} (hblocks : s.contains .blocks = true)
    (hfits : ∀ p ∈ parts, p.Fits d s) (nodes : List Node) {ts : List Token}
    (h : List.Forall₂ Token.Spells (parts.flatMap Part.items) ts) :
    ∃ ns, List.Forall₂ Part.Makes parts ns ∧
      Machine.read ⟨s, [], nodes⟩ ts = .ok ⟨s, [], nodes ++ ns⟩ := by
  induction parts generalizing nodes ts with
  | nil =>
    obtain rfl := List.forall₂_nil_left_iff.mp h
    exact ⟨[], .nil, by rw [List.append_nil]; rfl⟩
  | cons p parts ih =>
    rw [List.flatMap_cons] at h
    obtain ⟨ts, us, rfl, hfirst, hrest⟩ := exists_of_forall₂_append h
    obtain ⟨hp, hfits⟩ := List.forall_mem_cons.mp hfits
    obtain ⟨n, hn, hread⟩ := read_part (m := ⟨s, [], nodes⟩) hblocks rfl hp hfirst
    obtain ⟨ns, hns, hread'⟩ := ih hfits (nodes ++ [n]) hrest
    refine ⟨n :: ns, .cons hn hns, ?_⟩
    rw [Machine.read_append, hread]
    refine hread'.trans ?_
    rw [List.append_assoc]
    rfl

/-- A line of parts is a text node or a block for each. -/
theorem tree_of_parts (hd : d.Writable) (hblocks : s.contains .blocks = true) {parts : List Part}
    (h : PartsFit d s parts) : ∃ ts tree,
      Token.scan d (Token.printAll d (parts.flatMap Part.items)) = .ok ts ∧
      Node.ofTokens s ts = .ok tree ∧ List.Forall₂ Part.Makes parts tree := by
  obtain ⟨ts, hscan, hspells⟩ := scan_parts hd h
  obtain ⟨tree, htree, hrun⟩ := read_parts hblocks h.fits [] hspells
  refine ⟨ts, tree, hscan, ?_, htree⟩
  rw [Node.ofTokens_run, Machine.run_eq_read]
  change Except.mapError _ (Except.bind (Machine.read ⟨s, [], []⟩ ts) Machine.finish) = _
  rw [hrun]
  rfl

end

/-! ### Compiling -/

open Template

/-- The override of a tag: its text, whether or not that begins a line. -/
def Inset.Overrides (b : Inset) (o : Override Step) : Prop :=
  o.name = b.name ∧ o.dedent = false ∧ ∃ lineStart, o.steps = [.text b.text lineStart]

def Part.Steps : Part → Step → Prop
  | text s, step => ∃ lineStart, step = .text s lineStart
  | block b, step => ∃ lineStart, step = .block b.name none [.text b.text lineStart]

section

variable {source : List Char} {strictVariables : Bool} {walk walk' : Walk}

theorem steps_of_text {text : String} {steps : List Step}
    (h : compileNodes source strictVariables [.text text] walk = .ok (steps, walk')) :
    ∃ lineStart, steps = [.text text lineStart] := by
  rw [compileNodes_singleton] at h
  cases h
  exact ⟨_, rfl⟩

theorem overrides_of_compile {parent : String} {line : Nat} {bs : List Inset} {ns : List Node}
    (hns : List.Forall₂ Inset.Makes bs ns) {os : List (Override Step)}
    (h : compileOverrides source strictVariables parent line ns walk = .ok (os, walk')) :
    List.Forall₂ Inset.Overrides bs os := by
  induction hns generalizing walk os with
  | nil =>
    cases h
    exact .nil
  | @cons b n bs ns hn _ ih =>
    obtain ⟨_, rfl⟩ := hn
    rw [compileOverrides] at h
    obtain ⟨steps, mid, hsteps, h⟩ := bind_eq_ok.mp h
    obtain ⟨others, last, hothers, h⟩ := bind_eq_ok.mp h
    cases h
    exact .cons ⟨rfl, rfl, steps_of_text hsteps⟩ (ih hothers)

theorem steps_of_parts {parts : List Part} {ns : List Node}
    (hns : List.Forall₂ Part.Makes parts ns) {steps : List Step}
    (h : compileNodes source strictVariables ns walk = .ok (steps, walk')) :
    List.Forall₂ Part.Steps parts steps := by
  induction hns generalizing walk steps with
  | nil =>
    cases h
    exact .nil
  | @cons p n parts ns hn _ ih =>
    rw [compileNodes] at h
    obtain ⟨first, mid, hfirst, h⟩ := bind_eq_ok.mp h
    obtain ⟨others, last, hothers, h⟩ := bind_eq_ok.mp h
    cases h
    rw [← compileNodes_singleton] at hfirst
    cases p with
    | text text =>
      obtain rfl : n = .text text := hn
      obtain ⟨lineStart, rfl⟩ := steps_of_text hfirst
      exact .cons ⟨lineStart, rfl⟩ (ih hothers)
    | block b =>
      obtain ⟨_, rfl⟩ := hn
      rw [compileNodes_singleton, compileNode] at hfirst
      obtain ⟨inner, _, hinner, hfirst⟩ := bind_eq_ok.mp hfirst
      cases hfirst
      obtain ⟨lineStart, rfl⟩ := steps_of_text hinner
      exact .cons ⟨lineStart, rfl⟩ (ih hothers)

end

section

variable {options : CompileOptions} {name source : String} {t : Template}

/-- **A link is compiled to one step**, which expands its parent with its overrides. -/
theorem steps_of_link {l : Link} {own : Option String} {line : Nat} {ns : List Node}
    (hns : List.Forall₂ Inset.Makes l.overrides ns)
    (h : compile options name source [.parent l.parent own ns line] = .ok t) :
    ∃ os, t.steps = [.parent l.parent own os] ∧ List.Forall₂ Inset.Overrides l.overrides os := by
  obtain ⟨os, _, hsteps, hos⟩ := exists_overrides_of_compile h
  exact ⟨os, hsteps, overrides_of_compile hns hos⟩

/-- **A line of parts is compiled to a step for each**, be it a text or a block. -/
theorem steps_of_line {parts : List Part} {tree : List Node}
    (htree : List.Forall₂ Part.Makes parts tree)
    (h : compile options name source tree = .ok t) : List.Forall₂ Part.Steps parts t.steps := by
  obtain ⟨steps, walk, hrun, rfl⟩ := compile_eq_ok_iff.mp h
  exact steps_of_parts htree hrun

end

end Mustache
