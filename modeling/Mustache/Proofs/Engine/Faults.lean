import Mustache.Proofs.Engine.Sound
import Mustache.Proofs.Excerpt
import Mustache.Proofs.Node.Machine
import Mustache.Proofs.Render.Sources
import Mustache.Proofs.Token.Placed

/-!
What errors in a template say about where. Both the scanner and the parser blame a tag, the error
gives the line of that tag, and the excerpt in the message points at it. Main statement:
`compile_points_at_fault`.
-/

namespace Mustache.Node

/-! ### The tag that is at fault -/

namespace Machine

variable {m m' : Machine} {t : Token}

/-- The open tags, innermost first. -/
def tags (m : Machine) : List Token := m.stack.map Frame.tag

@[simp] theorem tags_add (m : Machine) (n : Node) : (m.add n).tags = m.tags := by
  unfold tags add
  cases m.stack <;> rfl

theorem line_of_step_error {f : Fault} (h : m.step t = .error f) : f.line = t.line := by
  unfold step at h
  split at h
  case h_5 =>
    split at h
    · cases h
      rfl
    · split at h <;> cases h
      rfl
  case h_6 =>
    split at h <;> cases h
    rfl
  all_goals cases h

theorem tags_step (h : m.step t = .ok m') : m'.tags ⊆ t :: m.tags := by
  have hsame : ∀ {m'' : Machine}, m''.tags = m.tags → m''.tags ⊆ t :: m.tags := fun h =>
    h ▸ List.subset_cons_self t m.tags
  unfold step at h
  split at h
  case h_5 =>
    split at h
    · cases h
    · rename_i f fs hstack
      split at h
      · cases h
        rw [tags_add]
        refine List.Subset.trans ?_ (List.subset_cons_self t m.tags)
        rw [tags, tags, hstack, List.map_cons]
        exact List.subset_cons_self _ _
      · cases h
  case h_6 =>
    split at h
    · cases h
    · cases h
      unfold place
      split
      · split
        · exact hsame (tags_add m _)
        · exact List.Subset.refl _
      · exact hsame (tags_add m _)
  all_goals cases h
  · exact hsame rfl
  · exact hsame rfl
  · split
    · exact hsame rfl
    · exact hsame (tags_add m _)
  · split
    · exact hsame rfl
    · exact hsame (tags_add _ _)

/-- A fault is blamed on a tag that is open or one that is read. -/
theorem exists_tag_of_run {f : Fault} {ts : List Token} (h : m.run ts = .error f) :
    ∃ t ∈ m.tags ++ ts, f.line = t.line := by
  induction ts generalizing m with
  | nil =>
    unfold run finish at h
    split at h
    · cases h
    · rename_i fr fs hstack
      cases h
      exact ⟨fr.tag, by simp [tags, hstack], rfl⟩
  | cons t ts ih =>
    rw [run] at h
    split at h
    · rename_i m' hstep
      obtain ⟨u, hu, hline⟩ := ih h
      refine ⟨u, ?_, hline⟩
      rcases List.mem_append.mp hu with hu | hu
      · rcases List.mem_cons.mp (tags_step hstep hu) with rfl | hu
        · exact List.mem_append_right _ List.mem_cons_self
        · exact List.mem_append_left _ hu
      · exact List.mem_append_right _ (List.mem_cons_of_mem t hu)
    · rename_i e hstep
      cases h
      exact ⟨t, List.mem_append_right _ List.mem_cons_self, line_of_step_error hstep⟩

end Machine

/-- The error of tokens that make no tree gives the line of one of them. -/
theorem exists_tag_of_ofTokens {s : PragmaSet} {ts : List Token} {err : Error}
    (h : ofTokens s ts = .error err) :
    ∃ t ∈ ts, ∃ defect, err = .malformed defect t.line none none := by
  rw [ofTokens_run] at h
  cases hrun : (Machine.start s).run ts with
  | ok nodes =>
    rw [hrun] at h
    cases h
  | error f =>
    rw [hrun] at h
    obtain ⟨t, ht, hline⟩ := Machine.exists_tag_of_run hrun
    refine ⟨t, ht, f.defect, ?_⟩
    rw [← hline]
    exact (Except.error.inj h).symm

end Mustache.Node

namespace Mustache.Engine

variable {σ : Type} {e : Engine σ} {source : String}

/-! ### Messages -/

/-- The error of a malformed template, whose excerpt points at the line that it gives. The caret
is below its column if the line number has no more digits than there is room for. -/
def Points (source name : String) (err : Error) : Prop :=
  ∃ defect line excerpt, err = .malformed defect line (some name) (some excerpt) ∧
    excerpt.line = line ∧ Excerpt.PointsAt source line excerpt.column excerpt.snippet ∧
    (Excerpt.caretColumn excerpt.column = Excerpt.shownColumn line excerpt.column ↔ line < 10000)

theorem points_of_parse (hd : e.delimiters.SingleLine) {err : Error}
    (h : e.parse source = .error err) (name : String) :
    Points source name (err.inTemplate name source) := by
  unfold parse tokenize at h
  cases hscan : Token.scan e.delimiters source with
  | error scanError =>
    rw [hscan] at h
    cases h
    obtain ⟨before, rest, ts, defect, hsource, -, hfront, -, rfl⟩ :=
      Token.exists_fault_of_scan hd hscan
    -- a tag begins with its delimiter, so the place is not at the end of its line
    obtain ⟨c, opening, hopening⟩ :=
      List.exists_cons_of_ne_nil (hd.through ts).opening_ne_nil
    obtain ⟨tail, rfl⟩ := hfront
    have hc : c ≠ '\n' := by
      rintro rfl
      exact (hd.through ts).newline_notMem_opening (hopening ▸ List.mem_cons_self)
    rw [hopening] at hsource
    have hpoints := Excerpt.pointsAt_place hc hsource
    have hexcerpt := Excerpt.atOffset_eq hsource
    refine ⟨defect, _, _, rfl, ?_, ?_, ?_⟩
    · rw [Option.getD_some, hexcerpt]
      rfl
    · rw [Option.getD_some, hexcerpt]
      rwa [hexcerpt] at hpoints
    · rw [Option.getD_some, hexcerpt]
      exact Excerpt.caretColumn_eq_shownColumn_iff (Nat.succ_pos _) _
  | ok ts =>
    rw [hscan] at h
    obtain ⟨t, ht, defect, rfl⟩ := Node.exists_tag_of_ofTokens h
    obtain ⟨before, rest, hsource, hrest, -, hline⟩ := Token.exists_append_of_mem_scan hd hscan ht
    rw [hline]
    exact ⟨defect, _, _, rfl, rfl, Excerpt.pointsAt_line hsource hrest,
      Excerpt.caretColumn_eq_shownColumn_iff (Nat.le_refl 1) _⟩

/-- An error of compiling points at the source, unless it is that of a tree from the cache. -/
theorem points_of_compileWith (hd : e.delimiters.SingleLine) {cache : Cache σ} {name : String}
    {s : Store σ} {err : Error} (h : result (e.compileWith cache name source) s = .error err) :
    Points source name err ∨
      ∃ a cause, result (cache.get (e.cacheKey source)) s.world = .ok (some a) ∧
        Template.compile (e.compileOptions (e.cacheKey source)) name a.source a.tree =
          .error cause ∧
        err = cause.inTemplate name source := by
  have hcourse := compiling_compileWith e cache name source s
  rw [h] at hcourse
  generalize left (e.compileWith cache name source) s = s' at hcourse
  cases hcourse with
  | malformed hnew hmiss hparse => exact .inl (points_of_parse hd hparse name)
  | @refused a w cause hnew hgets hcompile =>
    cases hgets with
    | hit hget => exact .inr ⟨a, cause, hget, hcompile, rfl⟩
    | parsed hmiss hparse =>
      obtain ⟨t, ht⟩ := exists_compile_of_parse hparse (e.compileOptions (e.cacheKey source)) name
      cases ht.symm.trans hcompile

/-- **Lines, columns and excerpts are right, and carets up to line 9999.** A token has the line of
its first byte. A fault of the scanner has the line and the column of the tag that cannot be read,
and every error of compiling shows the lines around the one it gives and points at it; only an
error of a tree that the cache had may come from elsewhere. -/
theorem compile_points_at_fault {d : Delimiters} (hd : d.SingleLine) (source : String) :
    (∀ ts, Token.scan d source = .ok ts → ∀ t ∈ ts, ∃ before rest,
      source.toList = before ++ rest ∧ rest ≠ [] ∧ t.start = Text.byteLength before ∧
      t.line = Text.newlines before + 1) ∧
    (∀ err, Token.scan d source = .error err → ∃ before rest ts defect excerpt,
      source.toList = before ++ rest ∧ Token.scan d (String.ofList before) = .ok ts ∧
      (d.through ts).opening.toList <+: rest ∧
      Token.readTag (d.through ts) ⟨Text.byteLength before, Text.newlines before + 1⟩ rest =
        .error ⟨defect, ⟨Text.byteLength before, Text.newlines before + 1⟩⟩ ∧
      err = .malformed defect (Text.newlines before + 1) none (some excerpt) ∧
      excerpt.line = Text.newlines before + 1 ∧
      excerpt.column = (Text.lastLine before).length + 1) ∧
    ∀ {σ : Type} (e : Engine σ), e.delimiters = d → ∀ cache name s err,
      result (e.compileWith cache name source) s = .error err → Points source name err ∨
        ∃ a cause, result (cache.get (e.cacheKey source)) s.world = .ok (some a) ∧
          Template.compile (e.compileOptions (e.cacheKey source)) name a.source a.tree =
            .error cause ∧
          err = cause.inTemplate name source := by
  refine ⟨fun ts h t ht => Token.exists_append_of_mem_scan hd h ht, fun err h => ?_, ?_⟩
  · obtain ⟨before, rest, ts, defect, hsource, hscan, hfront, hread, rfl⟩ :=
      Token.exists_fault_of_scan hd h
    refine ⟨before, rest, ts, defect, _, hsource, hscan, hfront, hread, rfl, ?_, ?_⟩
    · rw [Excerpt.atOffset_eq hsource]
      rfl
    · rw [Excerpt.atOffset_eq hsource]
      rfl
  · rintro σ e rfl cache name s err h
    exact points_of_compileWith hd h

theorem result_compileWith_of_error {err : Error} (h : (plainEngine []).parse source = .error err)
    (name : String) : result ((plainEngine []).compileWith Cache.none name source)
      (freshStore [] ()) = .error (err.inTemplate name source) := by
  have hrun : (plainEngine []).compileWith Cache.none name source (freshStore [] ()) =
      .error (err.inTemplate name source) (freshStore [] ()) := by
    rw [compileWith_of_miss rfl fun a h => by cases h]
    simp only [bind, EStateM.bind, parseArtifact_of_error h]
  exact result_of_error hrun

/-- A closing tag on the third line does not match the opening tag on the second. -/
theorem compile_points_at_fault_mismatched :
    let source := "\n \x7b\x7b#a\x7d\x7d\n\x7b\x7b/b\x7d\x7d"
    let err := Error.malformed (.mismatchedClose "a" 2 "b" 3) 3 (some "t")
      (some (Excerpt.around source 3 1))
    Delimiters.standard.SingleLine ∧
      result ((plainEngine []).compileWith Cache.none "t" source) (freshStore [] ()) =
        .error err ∧
      Points source "t" err := by
  intro source err
  have hstandard := Delimiters.writable_standard.singleLine
  have hparse : (plainEngine []).parse source =
      .error (.malformed (.mismatchedClose "a" 2 "b" 3) 3 none none) := by
    have hscan : Token.scan .standard source = .ok
        [⟨.text, "\n", 1, 0, 1, .standard, none⟩, ⟨.sectionTag, "a", 2, 2, 8, .standard, none⟩,
          ⟨.close, "b", 3, 9, 15, .standard, none⟩] := by
      decide +kernel
    unfold parse tokenize
    rw [show (plainEngine []).delimiters = .standard from rfl, hscan]
    exact (Node.ofTokens_run _ _).trans rfl
  have hresult : result ((plainEngine []).compileWith Cache.none "t" source) (freshStore [] ()) =
      .error err :=
    result_compileWith_of_error hparse "t"
  refine ⟨hstandard, hresult, ?_⟩
  rcases (compile_points_at_fault hstandard source).2.2 (plainEngine []) rfl Cache.none "t"
    (freshStore [] ()) err hresult with hpoints | ⟨a, cause, hget, -⟩
  · exact hpoints
  · cases hget

/-! ### Carets from line 10000 on -/

/-- The newlines are in front of a tag that has no end. -/
def unclosedBehind (n : Nat) : String := String.ofList (List.replicate n '\n' ++ "\x7b\x7bx".toList)

theorem lines_replicate (n : Nat) : Text.byteLength (List.replicate n '\n') = n ∧
    Text.newlines (List.replicate n '\n') = n ∧ Text.lastLine (List.replicate n '\n') = [] := by
  induction n with
  | zero => exact ⟨rfl, rfl, rfl⟩
  | succ n ih =>
    obtain ⟨hlength, hnewlines, hlast⟩ := ih
    refine ⟨?_, ?_, ?_⟩
    · rw [List.replicate_succ, Text.byteLength_cons, hlength]
      exact Nat.add_comm 1 n
    · exact List.count_replicate_self
    · rw [List.replicate_succ, Text.lastLine_newline, hlast]

theorem pieces_behind_newlines {d : Delimiters} (hd : d.SingleLine) {p : Token.Place}
    {cs : List Char} {f : Token.Fault} (n : Nat) (h : Token.pieces d (p.moved n n) cs = .error f) :
    Token.pieces d p (List.replicate n '\n' ++ cs) = .error f := by
  induction n generalizing p with
  | zero => exact h
  | succ n ih =>
    have htake : Token.takeText d.opening.toList (['\n'] ++ (List.replicate n '\n' ++ cs)) =
        (['\n'], List.replicate n '\n' ++ cs) := by
      refine Token.takeText_of_ends (fun c hc hmem => ?_) List.not_mem_nil (.inl rfl)
      rw [List.mem_singleton] at hmem
      subst hmem
      exact hd.newline_notMem_opening (List.mem_of_mem_head? hc)
    have hnext : (p.advance ['\n']).moved n n = p.moved (n + 1) (n + 1) := by
      change (⟨p.offset + 1 + n, p.line + 1 + n⟩ : Token.Place) =
        ⟨p.offset + (n + 1), p.line + (n + 1)⟩
      congr 1 <;> omega
    rw [List.replicate_succ, List.cons_append, ← List.singleton_append,
      Token.pieces_of_takeText (List.cons_ne_nil _ _) htake, ih (hnext ▸ h)]
    rfl

theorem scan_unclosedBehind (n : Nat) : Token.scan .standard (unclosedBehind n) =
    .error (.malformed (.unclosedTag "\x7b\x7bx") (1 + n) none
      (some (Excerpt.around (unclosedBehind n) (n + 1) 1))) := by
  have hlast : Token.pieces .standard ⟨0, 1⟩ "\x7b\x7bx".toList =
      .error ⟨.unclosedTag "\x7b\x7bx", ⟨0, 1⟩⟩ := by
    decide +kernel
  have hmoved := Token.pieces_moved n n .standard ⟨0, 1⟩ "\x7b\x7bx".toList
  rw [hlast] at hmoved
  have hpieces := pieces_behind_newlines Delimiters.writable_standard.singleLine n hmoved
  obtain ⟨hlength, hnewlines, hlastLine⟩ := lines_replicate n
  have hexcerpt : Excerpt.atOffset (unclosedBehind n) (0 + n) =
      Excerpt.around (unclosedBehind n) (n + 1) 1 := by
    have hsource : (unclosedBehind n).toList = List.replicate n '\n' ++ "\x7b\x7bx".toList :=
      String.toList_ofList
    have h := Excerpt.atOffset_eq hsource
    rw [hlength, hnewlines, hlastLine] at h
    rw [Nat.zero_add, h]
    rfl
  rw [← hexcerpt]
  unfold Token.scan
  rw [show (unclosedBehind n).toList = _ from String.toList_ofList, hpieces]
  rfl

/-- On line 10000 the caret stands one column to the left of the tag it is to point at. -/
theorem caret_beside_tag :
    ∃ excerpt, result ((plainEngine []).compile (unclosedBehind 9999)) (freshStore [] ()) =
        .error (.malformed (.unclosedTag "\x7b\x7bx") 10000 (some "source") (some excerpt)) ∧
      excerpt.line = 10000 ∧ excerpt.column = 1 ∧
      Excerpt.caretColumn excerpt.column + 1 = Excerpt.shownColumn excerpt.line excerpt.column := by
  refine ⟨Excerpt.around (unclosedBehind 9999) 10000 1, ?_, rfl, rfl, ?_⟩
  · have hparse : (plainEngine []).parse (unclosedBehind 9999) =
        .error (.malformed (.unclosedTag "\x7b\x7bx") 10000 none
          (some (Excerpt.around (unclosedBehind 9999) 10000 1))) := by
      unfold parse tokenize
      rw [show (plainEngine []).delimiters = .standard from rfl, scan_unclosedBehind]
      rfl
    exact result_compileWith_of_error hparse "source"
  · change Excerpt.caretColumn 1 + 1 = Excerpt.shownColumn 10000 1
    decide +kernel

end Mustache.Engine
