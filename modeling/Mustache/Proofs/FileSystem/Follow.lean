import Mathlib.Data.List.Infix
import Mustache.FileSystem

/-!
Where paths lead. What one name on a way does is said once; a way is one such step after the other.
From it: the way of a path begins with that of every path it goes on from, and it ends at a
location that no link is on the way to. Main statements: `resolve_of_join` and `resolve_linkFree`.
-/

namespace Mustache

/-! ### Pieces -/

namespace Path

theorem pieces_ne_nil (path : String) : pieces path ≠ [] := by
  unfold pieces
  rw [Ne, List.map_eq_nil_iff]
  exact List.splitOnP_ne_nil _ _

theorem pieces_append_slash (base path : String) :
    pieces (base ++ "/" ++ path) = pieces base ++ pieces path := by
  have hlist : (base ++ "/" ++ path).toList = base.toList ++ '/' :: path.toList := by
    rw [String.toList_append, String.toList_append, List.append_assoc]
    rfl
  unfold pieces
  rw [hlist, ← List.map_append]
  exact congrArg _ (List.splitOnP_append_cons base.toList path.toList (beq_self_eq_true '/'))

/-- The pieces of a path behind another one come after those of that one, in place of the empty
piece that a slash at the end makes. -/
theorem pieces_join {base path : String} (hbase : base ≠ "") (hpath : ¬ isAbsolute path) :
    ∃ names k, pieces base = names ++ List.replicate k "" ∧
      pieces (join base path) = names ++ pieces path := by
  unfold join
  rw [if_neg (by simp [hpath, hbase])]
  split
  · rename_i hslash
    obtain ⟨before, hbefore⟩ := List.getLast?_eq_some_iff.mp hslash
    have heq : base = String.ofList before ++ "/" ++ "" := by
      rw [← String.toList_inj, hbefore]
      simp
    refine ⟨pieces (String.ofList before), 1, ?_, ?_⟩
    · rw [heq, pieces_append_slash]
      rfl
    · rw [heq, String.append_empty, pieces_append_slash]
  · exact ⟨pieces base, 0, (List.append_nil _).symm, pieces_append_slash base path⟩

theorem exists_join_eq {base path : String} (hbase : base ≠ "") (hpath : ¬ isAbsolute path) :
    ∃ rest, join base path = base ++ rest := by
  unfold join
  rw [if_neg (by simp [hpath, hbase])]
  split
  · exact ⟨path, rfl⟩
  · exact ⟨"/" ++ path, String.append_assoc⟩

theorem isAbsolute_append {base : String} (hbase : base ≠ "") (rest : String) :
    isAbsolute (base ++ rest) = isAbsolute base := by
  unfold isAbsolute
  rw [String.toList_append, List.head?_append_of_ne_nil _ (by simpa using hbase)]

end Path

theorem fromUTF8?_toUTF8 (s : String) : String.fromUTF8? s.toUTF8 = some s := by
  unfold String.fromUTF8?
  rw [String.toUTF8_eq_toByteArray, dif_pos s.isValidUTF8]
  rfl

namespace FileSystem

variable {fs : FileSystem} {links links' : Nat} {l l' m : Location} {name path : String}
  {names more : List String}

/-! ### Ways -/

/-- What following one name comes to: the links that are left, the next location, and names to be
followed before the others. -/
inductive Goes (fs : FileSystem) : Nat → Location → String → Nat → Location → List String → Prop
  | stay {links : Nat} {l : Location} {name : String} (hdir : fs.isDirectoryAt l)
      (hname : name = "" ∨ name = ".") : Goes fs links l name links l []
  | up {links : Nat} {l : Location} (hdir : fs.isDirectoryAt l) :
      Goes fs links l ".." links l.dropLast []
  | down {links : Nat} {l : Location} {name : String} {item : Item} (hdir : fs.isDirectoryAt l)
      (hname : ¬ (name = "" ∨ name = ".")) (hup : ¬ name = "..")
      (hsize : ¬ maxName < name.utf8ByteSize) (hitem : fs.item? (l ++ [name]) = some item)
      (hlink : ∀ target, item ≠ .link target) : Goes fs links l name links (l ++ [name]) []
  | link {links : Nat} {l : Location} {name target : String} (hdir : fs.isDirectoryAt l)
      (hname : ¬ (name = "" ∨ name = ".")) (hup : ¬ name = "..")
      (hsize : ¬ maxName < name.utf8ByteSize)
      (hitem : fs.item? (l ++ [name]) = some (.link target)) :
      Goes fs (links + 1) l name links (if Path.isAbsolute target then [] else l)
        (Path.pieces target)

/-- Names lead from one location to another, over no more than some number of links. -/
inductive Leads (fs : FileSystem) : Nat → Location → List String → Location → Prop
  | here {links : Nat} {l : Location} : Leads fs links l [] l
  | step {links links' : Nat} {l l' m : Location} {name : String} {more rest : List String}
      (hgoes : fs.Goes links l name links' l' more) (hrest : Leads fs links' l' (more ++ rest) m) :
      Leads fs links l (name :: rest) m

theorem Goes.isDirectoryAt (h : fs.Goes links l name links' l' more) : fs.isDirectoryAt l := by
  cases h <;> assumption

theorem leads_of_follow (h : fs.follow links l names = .ok (.found m)) :
    fs.Leads links l names m := by
  have hdirectory : ∀ {l}, ¬ (!fs.isDirectoryAt l) = true → fs.isDirectoryAt l := fun h => by
    simpa using h
  fun_induction fs.follow links l names with
  | case1 links l =>
    cases h
    exact .here
  | case2 | case5 | case6 | case7 => cases h
  | case3 links l name rest hdir hname ih =>
    exact .step (.stay (hdirectory hdir) hname) (ih h)
  | case4 links l rest hdir _ ih => exact .step (.up (hdirectory hdir)) (ih h)
  | case8 l name rest hdir hname hup hsize target hitem n ih =>
    exact .step (.link (hdirectory hdir) hname hup hsize hitem) (ih h)
  | case9 links l name rest hdir hname hup hsize item hlink hitem ih =>
    exact .step (.down (hdirectory hdir) hname hup hsize hitem hlink) (ih h)

theorem follow_of_goes {rest : List String} (h : fs.Goes links l name links' l' more) :
    fs.follow links l (name :: rest) = fs.follow links' l' (more ++ rest) := by
  have hdir := h.isDirectoryAt
  rw [follow]
  cases h with
  | stay _ hname => simp [hdir, hname]
  | up => simp [hdir]
  | down _ hname hup hsize hitem hlink => simp [hdir, hname, hup, hsize, hitem]
  | link _ hname hup hsize hitem => simp [hdir, hname, hup, hsize, hitem]

theorem follow_eq_found_iff :
    fs.follow links l names = .ok (.found m) ↔ fs.Leads links l names m := by
  refine ⟨leads_of_follow, fun h => ?_⟩
  induction h with
  | here => rw [follow]
  | step hgoes _ ih => rw [follow_of_goes hgoes, ih]

/-- The location that following a path begins at. -/
def start (fs : FileSystem) (path : String) : Location :=
  if Path.isAbsolute path then [] else fs.workingDirectory

theorem resolve_eq_ok_iff_arrive : fs.resolve path = .ok l ↔ fs.arrive path = .ok (.found l) := by
  unfold resolve
  rcases fs.arrive path with err | l' | ⟨l', rest⟩ <;> simp [bind, Except.bind]

theorem resolve_eq_ok_iff : fs.resolve path = .ok l ↔
    path ≠ "" ∧ Char.ofNat 0 ∉ path.toList ∧ ¬ maxPath < path.utf8ByteSize ∧
      fs.Leads maxLinks (fs.start path) (Path.pieces path) l := by
  rw [← follow_eq_found_iff, resolve_eq_ok_iff_arrive]
  unfold arrive start
  split
  · rename_i hempty
    simp [hempty]
  · rename_i hempty
    split
    · rename_i hnul
      simp [hnul]
    · rename_i hnul
      split
      · rename_i hlong
        simp [hlong]
      · rename_i hlong
        exact ⟨fun h => ⟨hempty, hnul, hlong, h⟩, fun h => h.2.2.2⟩

/-! ### Parts of a way -/

/-- Empty names at the end, which slashes make, stay in a directory. -/
theorem leads_replicate (hdir : fs.isDirectoryAt l) (k : Nat) :
    fs.Leads links l (List.replicate k "") l := by
  induction k with
  | zero => exact .here
  | succ k ih => exact .step (.stay hdir (.inl rfl)) ih

/-- A way that goes on passes through the directory that its first part leads to. -/
theorem Leads.of_append (hmore : more ≠ []) (h : fs.Leads links l (names ++ more) m) :
    ∃ b, ∀ k, fs.Leads links l (names ++ List.replicate k "") b := by
  generalize hway : names ++ more = way at h
  induction h generalizing names with
  | here => exact absurd (List.append_eq_nil_iff.mp hway).2 hmore
  | @step _ _ l _ _ name before rest hgoes _ ih =>
    cases names with
    | nil => exact ⟨l, fun k => leads_replicate hgoes.isDirectoryAt k⟩
    | cons first names =>
      obtain ⟨rfl, rfl⟩ := List.cons.inj hway
      obtain ⟨b, hb⟩ := ih (List.append_assoc before names more)
      refine ⟨b, fun k => .step hgoes ?_⟩
      have hk := hb k
      rwa [List.append_assoc] at hk

/-- **What a path goes on from leads somewhere**, if the path does. -/
theorem resolve_of_join {base : String} (hbase : base ≠ "") (hpath : ¬ Path.isAbsolute path)
    (h : fs.resolve (Path.join base path) = .ok l) : ∃ b, fs.resolve base = .ok b := by
  obtain ⟨-, hnul, hlong, hleads⟩ := resolve_eq_ok_iff.mp h
  obtain ⟨rest, hrest⟩ := Path.exists_join_eq hbase hpath
  obtain ⟨names, k, hpieces, hjoin⟩ := Path.pieces_join hbase hpath
  have hstart : fs.start (Path.join base path) = fs.start base := by
    unfold start
    rw [hrest, Path.isAbsolute_append hbase]
  rw [hstart, hjoin] at hleads
  rw [hrest] at hnul hlong
  obtain ⟨b, hb⟩ := hleads.of_append (Path.pieces_ne_nil path)
  refine ⟨b, resolve_eq_ok_iff.mpr ⟨hbase, fun hmem => hnul ?_, fun hlt => hlong ?_, ?_⟩⟩
  · rw [String.toList_append]
    exact List.mem_append_left _ hmem
  · rw [String.utf8ByteSize_append]
    omega
  · rw [hpieces]
    exact hb k

/-! ### Locations without links -/

/-- No link is on the way from the root to the location. -/
def LinkFree (fs : FileSystem) (l : Location) : Prop :=
  ∀ m, m <+: l → ∀ target, fs.item? m ≠ some (.link target)

theorem linkFree_root : fs.LinkFree [] := by
  intro m hm target h
  rw [List.prefix_nil.mp hm] at h
  cases h

theorem Goes.linkFree (h : fs.Goes links l name links' l' more) (hl : fs.LinkFree l) :
    fs.LinkFree l' := by
  cases h with
  | stay => exact hl
  | up => exact fun m hm => hl m (hm.trans (List.dropLast_prefix l))
  | down _ _ _ _ hitem hlink =>
    intro m hm target htarget
    rcases List.prefix_concat_iff.mp hm with rfl | hm
    · rw [hitem] at htarget
      exact hlink target (Option.some.inj htarget)
    · exact hl m hm target htarget
  | link =>
    split
    · exact linkFree_root
    · exact hl

theorem Leads.linkFree (h : fs.Leads links l names m) (hl : fs.LinkFree l) : fs.LinkFree m := by
  induction h with
  | here => exact hl
  | step hgoes _ ih => exact ih (hgoes.linkFree hl)

/-- **A path is followed to a location that no link is on the way to**, if the working directory is
such a location. -/
theorem resolve_linkFree (hworking : fs.LinkFree fs.workingDirectory)
    (h : fs.resolve path = .ok l) : fs.LinkFree l := by
  refine (resolve_eq_ok_iff.mp h).2.2.2.linkFree ?_
  unfold start
  split
  · exact linkFree_root
  · exact hworking

/-! ### Reading files -/

theorem readText_eq_ok_iff {source : String} : fs.readText path = .ok source ↔
    ∃ l content, fs.resolve path = .ok l ∧ fs.item? l = some (.file content) ∧
      String.fromUTF8? content = some source := by
  unfold readText read
  cases hresolve : fs.resolve path with
  | error err => simp [bind, Except.bind]
  | ok l =>
    cases hitem : fs.item? l with
    | none => simp [bind, Except.bind, hitem]
    | some item =>
      cases item with
      | file content =>
        cases hsource : String.fromUTF8? content <;> simp [bind, Except.bind, hitem, hsource]
      | directory => simp [bind, Except.bind, hitem]
      | link target => simp [bind, Except.bind, hitem]

theorem isFile_of_readText {source : String} (h : fs.readText path = .ok source) : fs.isFile path := by
  obtain ⟨l, content, hl, hitem, -⟩ := readText_eq_ok_iff.mp h
  unfold isFile itemOf?
  rw [hl]
  dsimp only
  rw [hitem]

end FileSystem

end Mustache
