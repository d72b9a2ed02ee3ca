import Mustache.Loader.Directory
import Mustache.Proofs.FileSystem.Follow

/-!
Templates in a directory lie below it: what is read for a name, all links followed, is a file below
the directory, all links followed. Main statement: `load_confined`.

That links do not lead out is checked where the base of the directory can be followed to its end.
The empty base cannot, though paths that go on from it can: there links are not checked at all.
-/

namespace Mustache

variable {fs : FileSystem} {d : TemplateDirectory} {name path source : String}

namespace TemplateDirectory

/-- A path of the directory goes on from its base. -/
theorem exists_join_of_path? (h : d.path? name = some path) :
    ∃ below, ¬ Path.isAbsolute below ∧ path = Path.join d.base below := by
  unfold path? at h
  split at h
  · rename_i hstays
    unfold staysBelow at hstays
    simp only [Bool.and_eq_true, bne_iff_ne, Bool.not_eq_true'] at hstays
    obtain ⟨⟨hname, habsolute⟩, -⟩ := hstays
    refine ⟨_, ?_, (Option.some.inj h).symm⟩
    split
    · simp [habsolute]
    · rw [Path.isAbsolute_append hname, habsolute]
      exact Bool.false_ne_true
  · cases h

theorem load_eq_ok_iff : d.load fs name = .ok source ↔
    ∃ path, d.path? name = some path ∧ d.holds fs path ∧ fs.readText path = .ok source := by
  unfold load
  cases hpath : d.path? name with
  | none => simp
  | some path =>
    dsimp only
    refine ⟨fun h => ?_, ?_⟩
    · split at h
      · rename_i hheld
        split at h
        · rename_i source' hread
          rw [← Except.ok.inj h]
          exact ⟨path, rfl, hheld.2, hread⟩
        · cases h
      · cases h
    · rintro ⟨_, hsame, hholds, hread⟩
      obtain rfl := Option.some.inj hsame
      rw [if_pos ⟨FileSystem.isFile_of_readText hread, hholds⟩, hread]

theorem load_eq_error {err : Error} (h : d.load fs name = .error err) :
    err = .unknownTemplate name ∨ ∃ cause, err = .io cause := by
  unfold load at h
  split at h
  · split at h
    · split at h
      · cases h
      · exact .inr ⟨_, (Except.error.inj h).symm⟩
    · exact .inl (Except.error.inj h).symm
  · exact .inl (Except.error.inj h).symm

theorem prefix_of_holds {b l : Location} (h : d.holds fs path) (hbase : fs.resolve d.base = .ok b)
    (hpath : fs.resolve path = .ok l) : b <+: l := by
  unfold holds at h
  rw [hbase, hpath] at h
  exact List.isPrefixOf_iff_prefix.mp h

/-- **What is read for a name is a file below the directory**, wherever its base and the path of
the name lead. Nothing is read for other names. The base must not be empty. -/
theorem load_confined (hbase : d.base ≠ "") (fs : FileSystem) (name : String) :
    match d.load fs name with
    | .ok source => ∃ path b l content, d.path? name = some path ∧
        fs.resolve d.base = .ok b ∧ fs.resolve path = .ok l ∧
        (fs.LinkFree fs.workingDirectory → fs.LinkFree b ∧ fs.LinkFree l) ∧ b <+: l ∧
        fs.item? l = some (.file content) ∧ String.fromUTF8? content = some source
    | .error err => err = .unknownTemplate name ∨ ∃ cause, err = .io cause := by
  cases hload : d.load fs name with
  | error err => exact load_eq_error hload
  | ok source =>
    obtain ⟨path, hpath, hholds, hread⟩ := load_eq_ok_iff.mp hload
    obtain ⟨l, content, hl, hitem, hsource⟩ := FileSystem.readText_eq_ok_iff.mp hread
    obtain ⟨below, hbelow, rfl⟩ := exists_join_of_path? hpath
    obtain ⟨b, hb⟩ := FileSystem.resolve_of_join hbase hbelow hl
    refine ⟨_, b, l, content, hpath, hb, hl, fun hworking => ⟨?_, ?_⟩, ?_, hitem, hsource⟩
    · exact FileSystem.resolve_linkFree hworking hb
    · exact FileSystem.resolve_linkFree hworking hl
    · exact prefix_of_holds hholds hb hl

/-! ### A link out of the directory -/

/-- A working directory with a page, and with a link out of it in place of another page. -/
def linkedFiles : FileSystem where
  items :=
    [(["views"], .directory), (["views", "page.mustache"], .file "page".toUTF8),
      (["views", "leak.mustache"], .link "../secret"), (["secret"], .file "secret".toUTF8)]
  workingDirectory := ["views"]

theorem resolve_views : linkedFiles.resolve "/views" = .ok ["views"] := by
  refine FileSystem.resolve_eq_ok_iff.mpr ⟨by decide, by decide, by decide, ?_⟩
  refine .step (.stay rfl (by decide)) ?_
  refine .step (.down rfl (by decide) (by decide) (by decide) rfl fun _ h => nomatch h) ?_
  exact .here

theorem resolve_page :
    linkedFiles.resolve "/views/page.mustache" = .ok ["views", "page.mustache"] := by
  refine FileSystem.resolve_eq_ok_iff.mpr ⟨by decide, by decide, by decide, ?_⟩
  refine .step (.stay rfl (by decide)) ?_
  refine .step (.down rfl (by decide) (by decide) (by decide) rfl fun _ h => nomatch h) ?_
  refine .step (.down rfl (by decide) (by decide) (by decide) rfl fun _ h => nomatch h) ?_
  exact .here

theorem resolve_leak : linkedFiles.resolve "leak.mustache" = .ok ["secret"] := by
  refine FileSystem.resolve_eq_ok_iff.mpr ⟨by decide, by decide, by decide, ?_⟩
  refine .step (.link rfl (by decide) (by decide) (by decide) rfl) ?_
  refine .step (.up rfl) ?_
  refine .step (.down rfl (by decide) (by decide) (by decide) rfl fun _ h => nomatch h) ?_
  exact .here

theorem load_confined_page :
    (ofBase "/views").load linkedFiles "page" = .ok "page" ∧
      ∃ b l, linkedFiles.resolve "/views" = .ok b ∧
        linkedFiles.resolve "/views/page.mustache" = .ok l ∧ b <+: l := by
  have hpath : (ofBase "/views").path? "page" = some "/views/page.mustache" := by decide
  have hholds : (ofBase "/views").holds linkedFiles "/views/page.mustache" := by
    unfold holds ofBase
    rw [resolve_views, resolve_page]
    decide
  have hread : linkedFiles.readText "/views/page.mustache" = .ok "page" :=
    FileSystem.readText_eq_ok_iff.mpr ⟨_, _, resolve_page, rfl, fromUTF8?_toUTF8 _⟩
  have hload : (ofBase "/views").load linkedFiles "page" = .ok "page" :=
    load_eq_ok_iff.mpr ⟨_, hpath, hholds, hread⟩
  have hconfined := load_confined (d := ofBase "/views") (by decide) linkedFiles "page"
  rw [hload] at hconfined
  obtain ⟨path, b, l, _, hpath', hb, hl, -, hprefix, -⟩ := hconfined
  rw [hpath] at hpath'
  obtain rfl := Option.some.inj hpath'
  exact ⟨hload, b, l, hb, hl, hprefix⟩

/-- With the empty base, a link out of the working directory is read. -/
theorem load_leaks :
    (ofBase "").load linkedFiles "leak" = .ok "secret" ∧
      (ofBase "").path? "leak" = some "leak.mustache" ∧
      linkedFiles.resolve "leak.mustache" = .ok ["secret"] ∧
      ¬ linkedFiles.workingDirectory <+: ["secret"] := by
  have hpath : (ofBase "").path? "leak" = some "leak.mustache" := by decide
  have hread : linkedFiles.readText "leak.mustache" = .ok "secret" :=
    FileSystem.readText_eq_ok_iff.mpr ⟨_, _, resolve_leak, rfl, fromUTF8?_toUTF8 _⟩
  refine ⟨load_eq_ok_iff.mpr ⟨_, hpath, rfl, hread⟩, hpath, resolve_leak, by decide⟩

end TemplateDirectory

end Mustache
