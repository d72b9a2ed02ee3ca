import Mathlib
import Mustache.Command
import Mustache.Proofs.Engine.Sound
import Mustache.Proofs.Loader.Directory

/-!
Checking templates and compiling them for rendering. A tree that was parsed always compiles, so a
template is found in order exactly when rendering gets it compiled, and the error found is the one
that rendering fails with. Main statement: `check_agrees_with_compile`.
-/

namespace Mustache

/-! ### Failures to parse -/

namespace Engine

variable {σ : Type} {e : Engine σ} {source : String}

/-- A source that does not parse is malformed. Its error does not name a template yet. -/
theorem exists_malformed_of_parse {err : Error} (h : e.parse source = .error err) :
    ∃ defect line excerpt, err = .malformed defect line none excerpt := by
  unfold parse tokenize at h
  cases hscan : Token.scan e.delimiters source with
  | error scanError =>
    rw [hscan] at h
    cases h
    unfold Token.scan at hscan
    split at hscan
    · cases hscan
    · cases hscan
      exact ⟨_, _, _, rfl⟩
  | ok ts =>
    rw [hscan] at h
    change Node.ofTokens e.pragmas ts = .error err at h
    unfold Node.ofTokens at h
    split at h
    · cases h
    · cases h
      exact ⟨_, _, _, rfl⟩

theorem get_none_ne (key : String) (w : σ) (a : Artifact) :
    result (Cache.none.get key) w ≠ .ok (some a) :=
  fun h => nomatch h

section

variable {s : Store σ} (hcache : e.cache = Cache.none)
  (hnew : s.registry.find? (e.cacheKey source) = none)

include hcache hnew

/-- Without a cache a new source is parsed, and its tree, if there is one, compiles. -/
theorem compile_of_parse_ok {tree : List Node} (h : e.parse source = .ok tree) :
    ∃ t, e.compile source s =
      .ok t { s with registry := s.registry.insert (e.cacheKey source) t } := by
  obtain ⟨t, ht⟩ := exists_compile_of_parse h (e.compileOptions (e.cacheKey source)) "source"
  refine ⟨t, ?_⟩
  unfold compile
  rw [hcache, compileWith_of_miss hnew (get_none_ne _ _)]
  simp only [bind, EStateM.bind, parseArtifact_of_ok h]
  exact finish_of_ok ht

theorem compile_of_parse_error {err : Error} (h : e.parse source = .error err) :
    e.compile source s = .error (err.inTemplate "source" source) s := by
  unfold compile
  rw [hcache, compileWith_of_miss hnew (get_none_ne _ _)]
  simp only [bind, EStateM.bind, parseArtifact_of_error h]
  rfl

end

end Engine

namespace Command

/-! ### The stages of rendering a template -/

/-- The engine that a template is rendered with: the project's, and partials in a directory. -/
def openFor (project : Project) (job : RenderJob) : CommandM (Engine World) := do
  let directory := (TemplateDirectory.ofBase (project.partialsFor job.template job.partials))
    |>.withExtension project.extension
  let e ← openEngine project.engine
  return { e with partials := Loader.directory World.files directory }

def dataFor (job : RenderJob) : CommandM Value :=
  match job.data with
  | some path => loadData path
  | none => pure .null

/-- The stage in which the template is compiled. -/
def compileStage (e : Engine World) (job : RenderJob) (source : String) :
    CommandM (Template × Registry) :=
  onEngine ("failed to compile " ++ job.template) Registry.empty (e.compile source)

theorem renderFile_eq (settings : Option String) (job : RenderJob) :
    renderFile settings job = (do
      let project ← loadProject settings
      let e ← openFor project job
      let data ← dataFor job
      let source ← readTemplate job.template
      let (t, registry) ← compileStage e job source
      return (← onEngine ("failed to render " ++ job.template) registry
        (e.renderTemplate t data)).1) := by
  funext w
  unfold renderFile openFor dataFor compileStage
  simp only [bind, EStateM.bind]
  cases loadProject settings w with
  | error f w => rfl
  | ok project w =>
    dsimp only
    cases openEngine project.engine w with
    | error f w => rfl
    | ok e w => cases job.data <;> rfl

section

variable {w : World} {project : Project} {settings : Option String}

theorem loadProject_of_ok (h : Project.load w.files settings = .ok project) :
    loadProject settings w = .ok project w := by
  change orFail (Project.load w.files settings) w = _
  rw [h]
  rfl

theorem readTemplate_of_ok {path source : String} (h : w.files.readText path = .ok source) :
    readTemplate path w = .ok source w := by
  change orFile _ (w.files.readText path) w = _
  rw [h]
  rfl

/-- The options of a project are acceptable. -/
theorem validate_of_load {fs : FileSystem} (h : Project.load fs settings = .ok project) :
    project.engine.validate = .ok () := by
  have hread : ∀ path, Project.load.read fs path = .ok project →
      project.engine.validate = .ok () := by
    intro path hread
    unfold Project.load.read at hread
    cases htext : fs.readText path with
    | error err =>
      rw [htext] at hread
      cases hread
    | ok text =>
      rw [htext] at hread
      change Project.ofToml text = .ok project at hread
      unfold Project.ofToml at hread
      split at hread
      · cases hread
      · rename_i p _
        cases hvalidate : p.engine.validate with
        | error err =>
          rw [hvalidate] at hread
          cases hread
        | ok done =>
          rw [hvalidate] at hread
          cases hread
          exact hvalidate
  unfold Project.load at h
  split at h
  · split at h
    · exact hread _ h
    · cases h
      decide
  · exact hread _ h

/-- Without a cache acceptable options give an engine, and opening it changes nothing. -/
theorem exists_openEngine {config : Config} (hvalid : config.validate = .ok ())
    (hoff : config.cache = .off) :
    ∃ e, openEngine config w = .ok e w ∧ e.cache = Cache.none := by
  have hdelimiters : ∃ d, config.initialDelimiters = .ok d := by
    unfold Config.validate at hvalid
    cases hd : config.initialDelimiters with
    | ok d => exact ⟨d, rfl⟩
    | error err =>
      rw [hd] at hvalid
      simp only [bind, Except.bind] at hvalid
      repeat' split at hvalid
      all_goals cases hvalid
  obtain ⟨d, hd⟩ := hdelimiters
  have hopen : ∃ e, w.openEngine config = .ok (e, w) ∧ e.cache = Cache.none := by
    unfold World.openEngine Engine.ofConfig
    rw [hvalid, hoff, hd]
    exact ⟨_, rfl, rfl⟩
  obtain ⟨e, he, hcache⟩ := hopen
  refine ⟨e, ?_, hcache⟩
  change (orError (w.openEngine config) >>= fun ew => (set ew.2 >>= fun _ => pure ew.1)) w = _
  rw [he]
  rfl

end

/-! ### Verdicts -/

/-- What is wrong with a template. -/
def verdict (e : Engine World) (path source : String) : Option Error :=
  match e.parse source with
  | .ok _ => none
  | .error err => some (err.inTemplate path source)

def checkFile (e : Engine World) (path : String) : CommandM (String × Option Error) := do
  let source ← readTemplate path
  match e.parse source with
  | .ok _ => return (path, none)
  | .error err => return (path, some (err.inTemplate path source))

theorem checkFile_of_readText {w : World} (e : Engine World) {path source : String}
    (h : w.files.readText path = .ok source) :
    checkFile e path w = .ok (path, verdict e path source) w := by
  unfold checkFile verdict
  simp only [bind, EStateM.bind, readTemplate_of_ok h]
  cases e.parse source <;> rfl

/-- Files that can be read all get their verdict, and nothing is changed. -/
theorem mapM_checkFile {w : World} (e : Engine World) : ∀ {paths : List String},
    (∀ path ∈ paths, ∃ source, w.files.readText path = .ok source) →
    ∃ reports, paths.mapM (checkFile e) w = .ok reports w ∧ reports.map Prod.fst = paths ∧
      ∀ report ∈ reports, ∃ source, w.files.readText report.1 = .ok source ∧
        report.2 = verdict e report.1 source
  | [], _ => ⟨[], rfl, rfl, fun _ h => nomatch h⟩
  | path :: paths, hread => by
    obtain ⟨⟨source, hsource⟩, hread⟩ := List.forall_mem_cons.mp hread
    obtain ⟨reports, hreports, hpaths, hverdicts⟩ := mapM_checkFile e hread
    refine ⟨(path, verdict e path source) :: reports, ?_, by rw [List.map_cons, hpaths], ?_⟩
    · rw [List.mapM_cons]
      simp only [bind, EStateM.bind, checkFile_of_readText e hsource, hreports]
      rfl
    · exact List.forall_mem_cons.mpr ⟨⟨source, hsource, rfl⟩, hverdicts⟩

/-- What rendering fails with when the template has this defect. -/
def compileFailure (template : String) (defect : Malformed) (line : Nat) (excerpt : Excerpt) :
    Failure :=
  (Failure.ofError (.malformed defect line (some "source") (some excerpt))).inContext
    ("failed to compile " ++ template)

/-- The compile stage goes by the verdict. -/
theorem compileStage_of_verdict {e : Engine World} (hcache : e.cache = Cache.none)
    (job : RenderJob) (source : String) (w : World) :
    (verdict e job.template source = none ↔ ∃ made, compileStage e job source w = .ok made w) ∧
    ∀ err, verdict e job.template source = some err → ∃ defect line excerpt,
      err = .malformed defect line (some job.template) (some excerpt) ∧
      compileStage e job source w =
        .error (compileFailure job.template defect line excerpt) w := by
  unfold verdict compileStage onEngine
  cases hparse : e.parse source with
  | ok tree =>
    obtain ⟨t, ht⟩ := Engine.compile_of_parse_ok (s := ⟨Registry.empty, [], w⟩) hcache rfl hparse
    rw [ht]
    exact ⟨⟨fun _ => ⟨_, rfl⟩, fun _ => rfl⟩, fun _ h => nomatch h⟩
  | error err =>
    rw [Engine.compile_of_parse_error (s := ⟨Registry.empty, [], w⟩) hcache rfl hparse]
    obtain ⟨defect, line, excerpt, rfl⟩ := Engine.exists_malformed_of_parse hparse
    refine ⟨⟨(nomatch ·), fun ⟨_, h⟩ => nomatch h⟩, fun err h => ?_⟩
    cases h
    exact ⟨_, _, _, rfl, rfl⟩

/-- The engine that checks and the one that renders differ only in their partials. -/
theorem openFor_of_openEngine {w : World} {project : Project} {e : Engine World}
    (h : openEngine project.engine w = .ok e w) (job : RenderJob) :
    ∃ partials, openFor project job w = .ok { e with partials } w := by
  unfold openFor
  simp only [bind, EStateM.bind, h]
  exact ⟨_, rfl⟩

theorem renderFile_of_compileStage {w : World} {settings : Option String} {project : Project}
    {job : RenderJob} {e : Engine World} {source : String} {data : Value} {f : Failure}
    (hproject : loadProject settings w = .ok project w) (hopen : openFor project job w = .ok e w)
    (hdata : dataFor job w = .ok data w) (hread : readTemplate job.template w = .ok source w)
    (h : compileStage e job source w = .error f w) :
    renderFile settings job w = .error f w := by
  rw [renderFile_eq]
  simp only [bind, EStateM.bind, hproject, hopen, hdata, hread, h]

/-- **What checks compiles.** In every tree that scanning and parsing give, parents hold blocks
alone, and the tree compiles under all options. So in a project without a cache, a template is
found in order exactly when the compile stage of rendering succeeds on it; otherwise the error
found and the one that rendering fails with have the same defect, line and excerpt. -/
theorem check_agrees_with_compile :
    (∀ (d : Delimiters) (s : PragmaSet) (source : String) (ts : List Token) (tree : List Node),
      Token.scan d source = .ok ts → Node.ofTokens s ts = .ok tree →
        (∀ name indent blocks line, (Node.parent name indent blocks line).In tree →
          ∀ b ∈ blocks, b.isBlock = true) ∧
        ∀ options name, ∃ t, Template.compile options name source tree = .ok t) ∧
    ∀ (w : World) (settings : Option String) (project : Project) (paths : List String),
      Project.load w.files settings = .ok project → project.engine.cache = .off →
      (∀ path ∈ paths, ∃ source, w.files.readText path = .ok source) →
      ∃ reports, checkFiles settings paths w = .ok reports w ∧ reports.map Prod.fst = paths ∧
        ∀ report ∈ reports, ∀ job : RenderJob, job.template = report.1 →
          ∃ e source, openFor project job w = .ok e w ∧
            readTemplate job.template w = .ok source w ∧
            (report.2 = none ↔ ∃ made, compileStage e job source w = .ok made w) ∧
            ∀ err, report.2 = some err → ∃ defect line excerpt,
              err = .malformed defect line (some job.template) (some excerpt) ∧
              compileStage e job source w =
                .error (compileFailure job.template defect line excerpt) w ∧
              ∀ data, dataFor job w = .ok data w →
                renderFile settings job w =
                  .error (compileFailure job.template defect line excerpt) w := by
  constructor
  · intro d s source ts tree hscan htree
    refine ⟨fun name indent blocks line hin => ?_, fun options name => ?_⟩
    · exact (Node.regular_of_ofTokens hscan htree hin).blocks _ _ _ _ rfl
    · exact Template.exists_compile_of_ofTokens hscan htree options name
  · intro w settings project paths hload hoff hread
    have hproject := loadProject_of_ok hload
    obtain ⟨e, hopen, hcache⟩ := exists_openEngine (w := w) (validate_of_load hload) hoff
    obtain ⟨reports, hreports, hpaths, hverdicts⟩ := mapM_checkFile e hread
    refine ⟨reports, ?_, hpaths, fun report hreport job htemplate => ?_⟩
    · change (loadProject settings >>= fun p => openEngine p.engine >>= fun e =>
        paths.mapM (checkFile e)) w = _
      simp only [bind, EStateM.bind, hproject, hopen, hreports]
    · obtain ⟨source, hsource, hverdict⟩ := hverdicts report hreport
      rw [← htemplate] at hsource hverdict
      have hsource := readTemplate_of_ok hsource
      obtain ⟨partials, hjob⟩ := openFor_of_openEngine hopen job
      rw [hverdict]
      obtain ⟨hfine, hfault⟩ :=
        compileStage_of_verdict (e := { e with partials }) hcache job source w
      refine ⟨_, source, hjob, hsource, hfine, fun err herr => ?_⟩
      obtain ⟨defect, line, excerpt, hdefect, hstage⟩ := hfault err herr
      refine ⟨defect, line, excerpt, hdefect, hstage, fun data hdata => ?_⟩
      exact renderFile_of_compileStage hproject hjob hdata hsource hstage

/-! ### Two files -/

def goodSource : String := "\x7b\x7b<p\x7d\x7d\x7b\x7b$b\x7d\x7dx\x7b\x7b/b\x7d\x7d\x7b\x7b/p\x7d\x7d"

def badSource : String := "one\n\x7b\x7b#a\x7d\x7d\x7b\x7b/b\x7d\x7d"

/-- A template in order, and one whose section is closed by another name. -/
def twoFiles : FileSystem where
  items := [(["good"], .file goodSource.toUTF8), (["bad"], .file badSource.toUTF8)]
  workingDirectory := []

theorem readText_twoFiles : ∀ path ∈ ["good", "bad"],
    ∃ source, twoFiles.readText path = .ok source := by
  have hgood : twoFiles.resolve "good" = .ok ["good"] := by
    refine FileSystem.resolve_eq_ok_iff.mpr ⟨by decide, by decide, by decide, ?_⟩
    exact .step (.down rfl (by decide) (by decide) (by decide) rfl fun _ h => nomatch h) .here
  have hbad : twoFiles.resolve "bad" = .ok ["bad"] := by
    refine FileSystem.resolve_eq_ok_iff.mpr ⟨by decide, by decide, by decide, ?_⟩
    exact .step (.down rfl (by decide) (by decide) (by decide) rfl fun _ h => nomatch h) .here
  refine List.forall_mem_cons.mpr ⟨⟨goodSource, ?_⟩, List.forall_mem_singleton.mpr ⟨badSource, ?_⟩⟩
  · exact FileSystem.readText_eq_ok_iff.mpr ⟨_, _, hgood, rfl, fromUTF8?_toUTF8 _⟩
  · exact FileSystem.readText_eq_ok_iff.mpr ⟨_, _, hbad, rfl, fromUTF8?_toUTF8 _⟩

theorem load_twoFiles : Project.load twoFiles none = .ok {} := by
  have hnowhere : ∀ name l, name = "stache.toml" →
      ¬ twoFiles.Leads FileSystem.maxLinks [] [name] l := by
    intro name l hname h
    cases h with
    | step hgoes _ =>
      cases hgoes with
      | stay _ hstays => exact absurd hstays (by rw [hname]; decide)
      | up _ => exact absurd hname (by decide)
      | down _ _ _ _ hitem _ =>
        rw [hname] at hitem
        cases hitem
      | link _ _ _ _ hitem =>
        rw [hname] at hitem
        cases hitem
  have hmissing : ∀ l, twoFiles.resolve Project.fileName ≠ .ok l := by
    intro l h
    obtain ⟨-, -, -, hleads⟩ := FileSystem.resolve_eq_ok_iff.mp h
    exact hnowhere _ l (by decide) hleads
  have hhas : twoFiles.has Project.fileName = false := by
    unfold FileSystem.has FileSystem.itemOf?
    cases h : twoFiles.resolve Project.fileName with
    | ok l => exact absurd h (hmissing l)
    | error err => rfl
  unfold Project.load
  rw [hhas]
  rfl

theorem check_agrees_with_compile_two :
    (∀ options name, ∃ t, Template.compile options name goodSource
      [.parent "p" none [.block "b" [.text "x"] none 1] 1] = .ok t) ∧
    ∃ reports, checkFiles none ["good", "bad"] (World.ofFiles twoFiles) =
        .ok reports (World.ofFiles twoFiles) ∧ reports.map Prod.fst = ["good", "bad"] ∧
      ∀ report ∈ reports, ∃ e source,
        openFor {} { template := report.1 } (World.ofFiles twoFiles) =
          .ok e (World.ofFiles twoFiles) ∧
        (report.2 = none ↔
          ∃ made, compileStage e { template := report.1 } source (World.ofFiles twoFiles) =
            .ok made (World.ofFiles twoFiles)) := by
  obtain ⟨htrees, hfiles⟩ := check_agrees_with_compile
  constructor
  · have hparse : (Token.scan .standard goodSource >>= Node.ofTokens (PragmaSet.ofList [.blocks])) =
        .ok [.parent "p" none [.block "b" [.text "x"] none 1] 1] := by
      cbv
    cases hscan : Token.scan .standard goodSource with
    | error err =>
      rw [hscan] at hparse
      cases hparse
    | ok ts =>
      rw [hscan] at hparse
      exact (htrees _ _ _ _ _ hscan hparse).2
  · obtain ⟨reports, hreports, hpaths, hverdicts⟩ :=
      hfiles (World.ofFiles twoFiles) none {} ["good", "bad"] load_twoFiles rfl readText_twoFiles
    refine ⟨reports, hreports, hpaths, fun report hreport => ?_⟩
    obtain ⟨e, source, hopen, -, hfine, -⟩ := hverdicts report hreport { template := report.1 } rfl
    exact ⟨e, source, hopen, hfine⟩

end Command

end Mustache
