import Mustache.Proofs.Engine.Joined
import Mustache.Proofs.Render.Rebodied

/-!
Tags that close themselves, in whole sources. Where a tag closes itself, a source compiles if and
only if it does with the two tags that the tag stands for, and renders to the same. Only a callable
that a section around the tag is over can tell the sources apart, for it sees the body as a text.
Main statement: `renderTemplate_selfClosing`.
-/

namespace Mustache.Engine

open Render
open Node (Machine Stands SameTag)

variable {σ : Type}

section

variable (e : Engine σ)

/-- The template of `head ++ spot ++ tail`, but that in the bodies of the sections around the spot
`mark` stands for it. -/
def Marked (name head spot tail mark : String) (t : Template) : Prop :=
  ∃ tree, e.parse (head ++ spot ++ tail) = .ok tree ∧
    Template.compile (e.compileOptions (e.cacheKey (head ++ spot ++ tail))) name
      (head ++ mark ++ tail) tree = .ok t

/-- Rendered with these data, `head ++ spot ++ tail` does not come to a section around the spot that
is over a callable. By a mark that is found nowhere else, these sections are told from others with
the same body. -/
def SparesAround (name head spot tail mark : String) (data : Value) (s : Store σ) : Prop :=
  ∀ t, e.Marked name head spot tail mark t →
    Place.Always e (Place.Spares e (Encloses head.toList mark.toList tail.toList))
      (e.startPlace t data s)

end

/-- Where nothing in the data or among the helpers can be called, no section is over a callable. -/
theorem sparesAround_of_callablesIn {e : Engine σ} {data : Value} {s : Store σ}
    (hdata : data.CallablesIn fun _ => False)
    (hhelpers : ∀ entry ∈ s.helpers, entry.2.CallablesIn fun _ => False)
    (name head spot tail mark : String) : e.SparesAround name head spot tail mark data s := by
  intro t _
  have hstart : (e.startPlace t data s).Uncallable := forall_startScopes hdata (.map hhelpers)
  exact hstart.spares _

/-! ### From tokens to templates -/

section

variable {e : Engine σ} {name source : String} {ts more : List Token}

theorem run_of_parse {tree : List Node} (hscan : Token.scan e.delimiters source = .ok ts)
    (hparse : e.parse source = .ok tree) : (Machine.start e.pragmas).run ts = .ok tree := by
  unfold parse tokenize at hparse
  rw [hscan] at hparse
  exact Node.run_of_ofTokens hparse

theorem exists_error_of_scan {err : Error} (hscan : Token.scan e.delimiters source = .error err)
    (name : String) : ∃ err, e.compiled name source = .error err := by
  cases hcompiled : e.compiled name source with
  | error err => exact ⟨err, rfl⟩
  | ok t =>
    obtain ⟨us, -, hus, -⟩ := compiled_eq_ok_iff.mp hcompiled
    cases hscan.symm.trans hus

/-- A source with a token that cannot be read does not compile. -/
theorem exists_error_of_read (hscan : Token.scan e.delimiters source = .ok (ts ++ more))
    {f : Node.Fault} (hread : (Machine.start e.pragmas).read ts = .error f) (name : String) :
    ∃ err, e.compiled name source = .error err := by
  cases hcompiled : e.compiled name source with
  | error err => exact ⟨err, rfl⟩
  | ok t =>
    obtain ⟨us, tree, hus, htree, -⟩ := compiled_eq_ok_iff.mp hcompiled
    obtain rfl := Except.ok.inj (hscan.symm.trans hus)
    have hrun := Node.run_of_ofTokens htree
    rw [Machine.run_eq_read, Machine.read_append, hread] at hrun
    cases hrun

theorem marked_of_compiled {head spot tail : String} {t : Template}
    (h : e.compiled name (head ++ spot ++ tail) = .ok t) : e.Marked name head spot tail spot t := by
  obtain ⟨ts, tree, hscan, htree, hcompile⟩ := compiled_eq_ok_iff.mp h
  exact ⟨tree, parse_of_scan hscan htree, hcompile⟩

end

/-! ### Marks -/

section

variable {e : Engine σ} {name head spot spot' tail mark tag : String}
  {front back mid mid' : List Token} {m : Machine} {u o : Token} {k k' : Nat} {t : Template}
  (h : Stands e.pragmas head.toList tail.toList front back m)
  (hmid : m.read mid = .ok (m.add (Node.ofTag u tag [] u.stop)))
  (hscan : Token.scan e.delimiters (head ++ spot ++ tail) = .ok (front ++ mid ++
    back.map (Token.moved (Text.byteLength (head ++ spot).toList) k)))
  (hmark : Text.byteLength mark.toList = Text.byteLength spot.toList)

include h hmid hscan hmark

theorem exists_marked (ht : e.compiled name (head ++ spot ++ tail) = .ok t) :
    ∃ t', e.Marked name head spot tail mark t' := by
  obtain ⟨ts, tree, hts, htree, hcompile⟩ := compiled_eq_ok_iff.mp ht
  obtain rfl := Except.ok.inj (hscan.symm.trans hts)
  obtain ⟨steps, w, hsteps, -⟩ := Template.compile_eq_ok_iff.mp hcompile
  have hrun := Node.run_of_ofTokens htree
  simp only [String.toList_append] at hrun hsteps
  obtain ⟨tree', steps', hrun', hsteps', -⟩ := Template.exists_compileNodes_replaced
    h hmid hmid spot.toList mark.toList (Step.rebodied fun _ => True) (fun _ _ => trivial)
    (fun _ => .empty ⟨rfl, rfl, rfl, rfl⟩ tag) hrun hsteps k
  have hbytes : Text.byteLength (head.toList ++ mark.toList) =
      Text.byteLength (head.toList ++ spot.toList) := by
    rw [Text.byteLength_append, Text.byteLength_append, hmark]
  rw [hbytes, hrun] at hrun'
  obtain rfl := Except.ok.inj hrun'
  refine ⟨_, tree, parse_of_scan hscan htree,
    Template.compile_eq_ok_iff.mpr ⟨steps', w, ?_, rfl⟩⟩
  simpa only [String.toList_append] using hsteps'

/-- Other tags in the place of the spot. -/
theorem exists_compiled_of_marked (huo : SameTag u o)
    (hmid' : m.read mid' = .ok (m.add (Node.ofTag o tag [] o.stop)))
    (hscan' : Token.scan e.delimiters (head ++ spot' ++ tail) = .ok (front ++ mid' ++
      back.map (Token.moved (Text.byteLength (head ++ spot').toList) k')))
    (ht : e.Marked name head spot tail mark t) :
    ∃ t', e.compiled name (head ++ spot' ++ tail) = .ok t' ∧ LooksLike t t' ∧
      Step.Matches (Step.rebodied (Encloses head.toList mark.toList tail.toList)) t.steps
        t'.steps := by
  obtain ⟨tree, hparse, hcompile⟩ := ht
  obtain ⟨steps, w, hsteps, rfl⟩ := Template.compile_eq_ok_iff.mp hcompile
  have hrun := run_of_parse hscan hparse
  have hbytes : Text.byteLength (head ++ spot).toList =
      Text.byteLength (head.toList ++ mark.toList) := by
    rw [String.toList_append, Text.byteLength_append, Text.byteLength_append, hmark]
  rw [hbytes] at hrun
  simp only [String.toList_append] at hsteps
  obtain ⟨tree', steps', hrun', hsteps', hmatches⟩ := Template.exists_compileNodes_replaced
    h hmid hmid' mark.toList spot'.toList
    (Step.rebodied (Encloses head.toList mark.toList tail.toList)) (fun _ h => h)
    (fun _ => .empty huo tag) hrun hsteps k'
  refine ⟨_, compiled_eq_ok_iff.mpr ⟨_, tree', hscan', ?_,
    Template.compile_eq_ok_iff.mpr ⟨steps', w, ?_, rfl⟩⟩, ⟨rfl, rfl, rfl⟩, hmatches⟩
  · rw [Node.ofTokens_run, String.toList_append, hrun']
    rfl
  · rw [String.toList_append, String.toList_append]
    exact hsteps'

end

/-- **Other tags in the place of the spot lead to the same.** -/
theorem compiled_replaced {e : Engine σ} {head spot spot' tail tag : String}
    {front back mid mid' : List Token} {m : Machine} {u o : Token} {k k' : Nat}
    (h : Stands e.pragmas head.toList tail.toList front back m) (huo : SameTag u o)
    (hmid : m.read mid = .ok (m.add (Node.ofTag u tag [] u.stop)))
    (hmid' : m.read mid' = .ok (m.add (Node.ofTag o tag [] o.stop)))
    (hscan : Token.scan e.delimiters (head ++ spot ++ tail) = .ok (front ++ mid ++
      back.map (Token.moved (Text.byteLength (head ++ spot).toList) k)))
    (hscan' : Token.scan e.delimiters (head ++ spot' ++ tail) = .ok (front ++ mid' ++
      back.map (Token.moved (Text.byteLength (head ++ spot').toList) k'))) (name : String) :
    ((∃ err, e.compiled name (head ++ spot ++ tail) = .error err) ∧
      ∃ err, e.compiled name (head ++ spot' ++ tail) = .error err) ∨
    ∃ t t', e.compiled name (head ++ spot ++ tail) = .ok t ∧
      e.compiled name (head ++ spot' ++ tail) = .ok t' ∧
      ∀ mark, Text.byteLength mark.toList = Text.byteLength spot.toList → ∀ data s,
        e.SparesAround name head spot tail mark data s →
          e.renderTemplate t' data s = e.renderTemplate t data s := by
  cases ht : e.compiled name (head ++ spot ++ tail) with
  | error err =>
    cases ht' : e.compiled name (head ++ spot' ++ tail) with
    | error err' => exact .inl ⟨⟨err, rfl⟩, err', rfl⟩
    | ok t' =>
      obtain ⟨t, hcompiled, -⟩ := exists_compiled_of_marked h hmid' hscan' rfl huo.symm hmid hscan
        (marked_of_compiled ht')
      cases hcompiled.symm.trans ht
  | ok t =>
    obtain ⟨t', ht', -⟩ := exists_compiled_of_marked h hmid hscan rfl huo hmid' hscan'
      (marked_of_compiled ht)
    refine .inr ⟨t, t', rfl, ht', fun mark hmark data s hspares => ?_⟩
    obtain ⟨marked, hmarked⟩ := exists_marked h hmid hscan hmark ht
    obtain ⟨t₁, ht₁, hlooks, hmatches⟩ := exists_compiled_of_marked h hmid hscan hmark
      ⟨rfl, rfl, rfl, rfl⟩ hmid hscan hmarked
    obtain ⟨t₂, ht₂, hlooks', hmatches'⟩ := exists_compiled_of_marked h hmid hscan hmark huo hmid'
      hscan' hmarked
    obtain rfl := Except.ok.inj (ht₁.symm.trans ht)
    obtain rfl := Except.ok.inj (ht₂.symm.trans ht')
    have hcalm := hspares marked hmarked
    exact (renderTemplate_rebodied hlooks' hmatches' hcalm).trans
      (renderTemplate_rebodied hlooks hmatches hcalm).symm

/-! ### The two tags -/

section

variable {e : Engine σ} {name head tag : String} {kind : TokenKind} {ts : List Token}

/-- **A tag that closes itself is an open tag and a close tag.** Where such tags close themselves in
all of an engine's templates, the default delimiters are in force and the tag in front of `tail` is
read as one, the source with the tag compiles if and only if the source with the two tags does. And
the two render to the same, with any data from any store, unless a section around the tag is over a
callable. -/
theorem renderTemplate_selfClosing (hd : e.delimiters.SingleLine)
    (hself : e.pragmas.selfClosing = true) (hhead : Token.scan e.delimiters head = .ok ts)
    (hstandard : e.delimiters.through ts = .standard) (hbrace : head.toList.getLast? ≠ some '\x7b')
    (hkind : kind.Opens)
    (hblocks : kind = .block ∨ kind = .parent → (e.pragmas.through ts).blocks = true)
    (htag : Token.IsName tag) (name tail : String) :
    let spot := Token.selfClosingTag kind tag
    let spot' := Token.tagPair kind tag
    ((∃ err, e.compiled name (head ++ spot ++ tail) = .error err) ∧
      ∃ err, e.compiled name (head ++ spot' ++ tail) = .error err) ∨
    ∃ t t', e.compiled name (head ++ spot ++ tail) = .ok t ∧
      e.compiled name (head ++ spot' ++ tail) = .ok t' ∧
      ∀ mark, Text.byteLength mark.toList = Text.byteLength spot.toList → ∀ data s,
        e.SparesAround name head spot tail mark data s →
          e.renderTemplate t' data s = e.renderTemplate t data s := by
  intro spot spot'
  rcases Token.scan_selfClosing hd hkind htag hhead hstandard hbrace tail with
    ⟨⟨err, hscan⟩, err', hscan'⟩ | ⟨front, f, back, hkeeps, htags, hscan, hscan'⟩
  · exact .inl ⟨exists_error_of_scan hscan name, exists_error_of_scan hscan' name⟩
  have hstart : (f (Token.slashed kind tag ((⟨0, 1⟩ : Token.Place).advance head.toList))).start =
      Text.byteLength head.toList := by
    obtain ⟨i, hu⟩ := hkeeps.exists_indent
      (Token.slashed kind tag ((⟨0, 1⟩ : Token.Place).advance head.toList))
    rw [hu, Token.advance_start]
    rfl
  have hstands {m : Machine} (hread : (Machine.start e.pragmas).read front = .ok m) :
      Stands e.pragmas head.toList tail.toList front back m := by
    have hhead : (head ++ spot ++ tail).toList = head.toList ++ (spot.toList ++ tail.toList) := by
      simp
    exact Node.stands_of_scan hscan hhead hstart String.toList_append
      (fun _ => List.mem_map_of_mem) hread
  rw [List.append_cons] at hscan
  rw [List.append_cons, List.append_cons, List.append_assoc front] at hscan'
  cases hread : (Machine.start e.pragmas).read front with
  | error fault =>
    rw [List.append_assoc] at hscan hscan'
    exact .inl ⟨exists_error_of_read hscan hread name, exists_error_of_read hscan' hread name⟩
  | ok m =>
    have hpragmas : m.pragmas = e.pragmas.through front := Machine.pragmas_read hread
    have hopens : kind = .block ∨ kind = .parent → m.pragmas.contains .blocks = true :=
      fun hk => hpragmas ▸ Node.contains_through_of_tags (hblocks hk) htags
    rcases Machine.read_keeps hkeeps hkind htag ((⟨0, 1⟩ : Token.Place).advance head.toList)
      (hpragmas ▸ PragmaSet.contains_through.mpr (.inl hself)) hopens with
      ⟨⟨fault, hfault⟩, fault', hfault'⟩ | ⟨hmid, hmid'⟩
    · -- the tags have no place there
      have hreads {mid : List Token} {g : Node.Fault} (hmid : m.read mid = .error g) :
          (Machine.start e.pragmas).read (front ++ mid) = .error g := by
        rw [Machine.read_append, hread]
        exact hmid
      exact .inl ⟨exists_error_of_read hscan (hreads hfault) name,
        exists_error_of_read hscan' (hreads hfault') name⟩
    · have hsame : SameTag (f (Token.slashed kind tag ((⟨0, 1⟩ : Token.Place).advance head.toList)))
          (f (Token.opening kind tag ((⟨0, 1⟩ : Token.Place).advance head.toList))) :=
        Node.sameTag_of_keeps hkeeps ⟨rfl, rfl, rfl, rfl⟩
      exact compiled_replaced (hstands hread) hsame hmid hmid' hscan hscan' name

end

/-- A tag that closes itself, in a section. -/
theorem renderTemplate_selfClosing_in_section :
    let e : Engine Unit := { plainEngine [] with pragmas := PragmaSet.ofList [.selfClosing] }
    let data := Value.map [("w", .bool true), ("x", .list [])]
    let s : Store Unit := freshStore [] ()
    let head := "\x7b\x7b#w\x7d\x7da"
    let tail := "b\x7b\x7b/w\x7d\x7d"
    ∃ t t', e.compiled "t" (head ++ "\x7b\x7b^x /\x7d\x7d" ++ tail) = .ok t ∧
      e.compiled "t" (head ++ "\x7b\x7b^x\x7d\x7d\x7b\x7b/x\x7d\x7d" ++ tail) = .ok t' ∧
      e.renderTemplate t' data s = e.renderTemplate t data s ∧
      result (e.renderTemplate t data) s = .ok "ab" := by
  intro e data s head tail
  have htag : Token.IsName "x" :=
    ⟨⟨by decide, by simp [Text.isSpace], by simp [Text.isSpace]⟩, by decide, by decide, by decide⟩
  have hhead : Token.scan e.delimiters head = .ok
      [⟨.sectionTag, "w", 1, 0, 6, .standard, none⟩, ⟨.text, "a", 1, 6, 7, .standard, none⟩] := by
    decide +kernel
  have hscan : Token.scan e.delimiters (head ++ "\x7b\x7b^x /\x7d\x7d" ++ tail) = .ok
      [⟨.sectionTag, "w", 1, 0, 6, .standard, none⟩, ⟨.text, "a", 1, 6, 7, .standard, none⟩,
        ⟨.inverted, "x /", 1, 7, 15, .standard, none⟩, ⟨.text, "b", 1, 15, 16, .standard, none⟩,
        ⟨.close, "w", 1, 16, 22, .standard, none⟩] := by
    decide +kernel
  have hcompiled : e.compiled "t" _ = .ok _ := compiled_eq_ok_iff.mpr ⟨_, [.sectionNode "w" false
    [.text "a", .sectionNode "x" true [] 15 15 .standard 1, .text "b"] 6 16 .standard 1], hscan,
    by cbv, rfl⟩
  have hdata : data.CallablesIn fun _ => False :=
    .map (List.forall_mem_cons.mpr
      ⟨.bool true, List.forall_mem_singleton.mpr (.list (List.forall_mem_nil _))⟩)
  rcases renderTemplate_selfClosing (e := e) Delimiters.writable_standard.singleLine rfl hhead rfl
    (by decide) (.inr (.inl rfl)) (by decide) htag "t" tail with
    ⟨⟨err, herr⟩, -⟩ | ⟨t, t', ht, ht', hrender⟩
  · cases hcompiled.symm.trans herr
  · refine ⟨t, t', ht, ht', hrender _ rfl data s
      (sparesAround_of_callablesIn hdata (List.forall_mem_nil _) _ _ _ _ _), ?_⟩
    obtain rfl := Except.ok.inj (hcompiled.symm.trans ht)
    decide +kernel

end Mustache.Engine
