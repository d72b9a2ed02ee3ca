import Mathlib.Data.List.Basic
import Mustache.Proofs.FileSystem.Change

/-!
Directories in which only files lie, each under a name. A path that goes on from such a directory by
one name leads to the file of that name, and files are written, read and removed there without
touching one another.
-/

namespace Mustache

/-! ### Names behind a path -/

namespace Path

variable {base name : String}

/-- A text that stands for one item of a directory. -/
structure IsName (name : String) : Prop where
  slash_notMem : '/' ∉ name.toList
  ne_empty : name ≠ ""
  ne_dot : name ≠ "."
  ne_dots : name ≠ ".."

theorem IsName.not_isAbsolute (h : IsName name) : ¬ isAbsolute name := by
  unfold isAbsolute
  rw [beq_iff_eq]
  exact fun hhead => h.slash_notMem (List.mem_of_mem_head? hhead)

theorem IsName.pieces_eq (h : IsName name) : pieces name = [name] := by
  unfold pieces
  rw [List.splitOn_eq_singleton h.slash_notMem, List.map_singleton, String.ofList_toList]

theorem pieces_concat_slash (base : String) : pieces (base ++ "/") = pieces base ++ [""] := by
  have h := pieces_append_slash base ""
  rw [String.append_empty] at h
  exact h

theorem intercalate_pieces (path : String) : "/".intercalate (pieces path) = path := by
  rw [← String.toList_inj, String.toList_intercalate]
  have hlists : (pieces path).map String.toList = path.toList.splitOn '/' := by
    simp [pieces, Function.comp_def]
  rw [hlists]
  exact List.intercalate_splitOn '/'

/-- In front of the name stand the directory's pieces, which spell the directory, perhaps with one
more slash. -/
theorem exists_pieces_join (hbase : base ≠ "") (hname : IsName name) : ∃ names k,
    names ≠ [] ∧ pieces base = names ++ List.replicate k "" ∧
      pieces (join base name) = names ++ [name] ∧
      join base name = ("/".intercalate names ++ "/") ++ name ∧
      pieces ("/".intercalate names ++ "/") = names ++ [""] := by
  unfold join
  rw [if_neg (by simp [hname.not_isAbsolute, hbase])]
  split
  · rename_i hslash
    obtain ⟨before, hbefore⟩ := List.getLast?_eq_some_iff.mp hslash
    obtain ⟨front, rfl⟩ : ∃ front, base = front ++ "/" := by
      refine ⟨String.ofList before, ?_⟩
      rw [← String.toList_inj, hbefore]
      simp
    refine ⟨pieces front, 1, pieces_ne_nil _, pieces_concat_slash front, ?_, ?_, ?_⟩
    · rw [pieces_append_slash, hname.pieces_eq]
    · rw [intercalate_pieces]
    · rw [intercalate_pieces, pieces_concat_slash]
  · refine ⟨pieces base, 0, pieces_ne_nil _, (List.append_nil _).symm, ?_, ?_, ?_⟩
    · rw [pieces_append_slash, hname.pieces_eq]
    · rw [intercalate_pieces]
    · rw [intercalate_pieces, pieces_concat_slash]

theorem fileName?_join (hbase : base ≠ "") (hname : IsName name) :
    fileName? (join base name) = some name := by
  obtain ⟨names, k, -, -, hpieces, -, -⟩ := exists_pieces_join hbase hname
  have hlast : (components (join base name)).getLast? = some name := by
    have hempty : ([name].filter fun piece => piece != "") = [name] := by simp [hname.ne_empty]
    have hdot : ([name].filter fun piece => piece != ".") = [name] := by simp [hname.ne_dot]
    unfold components
    rw [hpieces, List.filter_append, hempty]
    cases names.filter fun piece => piece != "" with
    | nil =>
      rw [List.nil_append]
      dsimp only
      rw [hdot]
      split <;> rfl
    | cons first others =>
      dsimp only [List.cons_append]
      rw [← List.cons_append, List.filter_append, List.filter_append, hdot]
      split
      · exact List.getLast?_concat
      · rw [← List.cons_append]
        exact List.getLast?_concat
  unfold fileName?
  rw [hlast]
  simp [hname.ne_dot, hname.ne_dots]

end Path

namespace FileSystem

variable {fs fs' : FileSystem} {l : Location} {item : Item} {path name other : String}
  {content : ByteArray}

/-! ### Directories of files -/

/-- The path of a file in the directory of a path is not refused as it stands. -/
structure Writable (path name : String) : Prop extends Path.IsName name where
  nul_notMem : Char.ofNat 0 ∉ (Path.join path name).toList
  path_short : ¬ maxPath < (Path.join path name).utf8ByteSize
  name_short : ¬ maxName < name.utf8ByteSize

/-- The path leads to a directory, and what lies in it are files that can be reached by their
names. -/
structure Flat (fs : FileSystem) (path : String) (l : Location) : Prop where
  resolve : fs.resolve path = .ok l
  directory : fs.isDirectoryAt l
  file : ∀ name i, fs.item? (l ++ [name]) = some i →
    Writable path name ∧ ∃ content, i = .file content
  nodup : (fs.namesAt l).Nodup

theorem Flat.of_empty (hl : fs.resolve path = .ok l) (hdir : fs.isDirectoryAt l)
    (hempty : fs.namesAt l = []) : fs.Flat path l where
  resolve := hl
  directory := hdir
  file name i hi := by
    have hmem : name ∈ fs.namesAt l := mem_namesAt.mpr (by rw [hi]; rfl)
    rw [hempty] at hmem
    cases hmem
  nodup := by rw [hempty]; exact List.nodup_nil

theorem concat_ne_nil (l : Location) (name : String) : l ++ [name] ≠ [] := by simp

theorem concat_ne_concat (h : name ≠ other) : l ++ [name] ≠ l ++ [other] := by simpa using h

/-- Only the item of one name was changed, and what is there now is a file or nothing. -/
theorem Flat.of_changed (h : fs.Flat path l) (hworking : fs'.workingDirectory = fs.workingDirectory)
    (hothers : ∀ m, m ≠ l ++ [name] → fs'.item? m = fs.item? m)
    (hname : ∀ i, fs'.item? (l ++ [name]) = some i →
      Writable path name ∧ ∃ content, i = .file content)
    (hnodup : (fs'.namesAt l).Nodup) : fs'.Flat path l where
  resolve := resolve_of_keepsWays
    (.of_changed hworking hothers fun i hi => (h.file name i hi).2) h.resolve h.directory
  directory := by
    have hl : l ≠ l ++ [name] := fun heq => by simpa using congrArg List.length heq
    rw [isDirectoryAt_iff, hothers l hl]
    exact isDirectoryAt_iff.mp h.directory
  file other i hi := by
    by_cases hother : other = name
    · subst other
      exact hname i hi
    · rw [hothers _ (concat_ne_concat hother)] at hi
      exact h.file other i hi
  nodup := hnodup

theorem Flat.put (h : fs.Flat path l) (hname : Writable path name) (content : ByteArray) :
    (fs.put (l ++ [name]) (.file content)).Flat path l :=
  h.of_changed rfl (fun m hm => item?_put_of_ne hm)
    (fun i hi => by
      rw [item?_put_self (concat_ne_nil l name)] at hi
      exact ⟨hname, content, (Option.some.inj hi).symm⟩)
    (nodup_namesAt_put h.nodup)

theorem Flat.drop (h : fs.Flat path l) (name : String) : (fs.drop (l ++ [name])).Flat path l :=
  h.of_changed rfl (fun m hm => item?_drop_of_ne hm)
    (fun i hi => by
      rw [item?_drop_self (concat_ne_nil l name)] at hi
      cases hi)
    (nodup_namesAt_drop h.nodup)

theorem Flat.path_ne_empty (h : fs.Flat path l) : path ≠ "" := (resolve_eq_ok_iff.mp h.resolve).1

/-! ### Reaching files -/

theorem start_join (fs : FileSystem) (hpath : path ≠ "") (hname : Path.IsName name) :
    fs.start (Path.join path name) = fs.start path := by
  obtain ⟨rest, hrest⟩ := Path.exists_join_eq hpath hname.not_isAbsolute
  unfold start
  rw [hrest, Path.isAbsolute_append hpath]

/-- Behind the pieces of the directory the way goes on from the directory. -/
theorem Flat.exists_follow (h : fs.Flat path l) {names : List String} {k : Nat}
    (hpieces : Path.pieces path = names ++ List.replicate k "") :
    ∃ n, ∀ rest, fs.follow maxLinks (fs.start path) (names ++ rest) = fs.follow n l rest := by
  have hleads := (resolve_eq_ok_iff.mp h.resolve).2.2.2
  rw [hpieces] at hleads
  obtain ⟨n, b, -, -, hstays, hfollow⟩ := hleads.split
  have hl := follow_eq_found_iff.mpr hstays
  have hb := follow_eq_found_iff.mpr
    (leads_replicate (hstays.isDirectoryAt h.directory) k : fs.Leads n b _ b)
  obtain rfl : l = b := by
    rw [hb] at hl
    cases hl
    rfl
  exact ⟨n, hfollow⟩

theorem join_ne_empty (hpath : path ≠ "") (hname : Path.IsName name) :
    Path.join path name ≠ "" := by
  obtain ⟨rest, hrest⟩ := Path.exists_join_eq hpath hname.not_isAbsolute
  rw [hrest]
  simp [hpath]

/-- **The path of a name leads to the file of that name**, or to the place where it is missing. -/
theorem Flat.arrive_join (h : fs.Flat path l) (hname : Writable path name) :
    fs.arrive (Path.join path name) =
      .ok (if (fs.item? (l ++ [name])).isSome then .found (l ++ [name])
        else .missing (l ++ [name]) []) := by
  obtain ⟨names, k, -, hpath, hpieces, -, -⟩ :=
    Path.exists_pieces_join h.path_ne_empty hname.toIsName
  obtain ⟨n, hfollow⟩ := h.exists_follow hpath
  have harrive : fs.arrive (Path.join path name) = fs.follow n l [name] := by
    unfold arrive
    rw [if_neg (join_ne_empty h.path_ne_empty hname.toIsName), if_neg hname.nul_notMem,
      if_neg hname.path_short, hpieces]
    exact (congrArg (fs.follow maxLinks · _) (start_join fs h.path_ne_empty hname.toIsName)).trans
      (hfollow [name])
  have hitem : ∀ i, fs.item? (l ++ [name]) = some i → ∃ content, i = .file content :=
    fun i hi => (h.file name i hi).2
  rw [harrive, follow]
  simp only [h.directory, hname.ne_empty, hname.ne_dot, hname.ne_dots, hname.name_short]
  cases hi : fs.item? (l ++ [name]) with
  | none => simp
  | some i =>
    obtain ⟨content, rfl⟩ := hitem i hi
    simp [follow]

/-- A path that is not refused as it stands can be written. -/
theorem Flat.writable_of_arrive (h : fs.Flat path l) (hname : Path.IsName name) {a : Arrival}
    (ha : fs.arrive (Path.join path name) = .ok a) : Writable path name := by
  obtain ⟨names, k, -, hpath, hpieces, -, -⟩ := Path.exists_pieces_join h.path_ne_empty hname
  obtain ⟨n, hfollow⟩ := h.exists_follow hpath
  unfold arrive at ha
  rw [if_neg (join_ne_empty h.path_ne_empty hname)] at ha
  split at ha
  · cases ha
  split at ha
  · cases ha
  refine ⟨hname, ‹_›, ‹_›, fun hlong => ?_⟩
  have hstart := start_join fs h.path_ne_empty hname
  unfold start at hstart hfollow
  rw [hstart, hpieces, hfollow [name], follow] at ha
  simp [h.directory, hname.ne_empty, hname.ne_dot, hname.ne_dots, hlong] at ha

theorem Flat.resolve_join (h : fs.Flat path l) (hname : Writable path name)
    (hitem : fs.item? (l ++ [name]) = some item) :
    fs.resolve (Path.join path name) = .ok (l ++ [name]) := by
  rw [resolve_eq_ok_iff_arrive, h.arrive_join hname, hitem]
  rfl

/-- The item that the path of a name leads to. -/
theorem Flat.itemOf?_join (h : fs.Flat path l) (hname : Path.IsName name) :
    fs.itemOf? (Path.join path name) = fs.item? (l ++ [name]) := by
  unfold itemOf?
  cases hitem : fs.item? (l ++ [name]) with
  | some item =>
    rw [h.resolve_join (h.file name item hitem).1 hitem]
    exact hitem
  | none =>
    cases hresolve : fs.resolve (Path.join path name) with
    | error err => rfl
    | ok m =>
      have harrive := resolve_eq_ok_iff_arrive.mp hresolve
      rw [h.arrive_join (h.writable_of_arrive hname harrive), hitem] at harrive
      cases harrive

theorem Flat.has_join (h : fs.Flat path l) (hname : Path.IsName name) :
    fs.has (Path.join path name) = (fs.item? (l ++ [name])).isSome := by
  rw [has, h.itemOf?_join hname]

theorem Flat.isFile_join (h : fs.Flat path l) (hname : Path.IsName name) :
    fs.isFile (Path.join path name) = (fs.item? (l ++ [name])).isSome := by
  rw [isFile, h.itemOf?_join hname]
  cases hitem : fs.item? (l ++ [name]) with
  | none => rfl
  | some item =>
    obtain ⟨-, content, rfl⟩ := h.file name item hitem
    rfl

theorem Flat.readText_join (h : fs.Flat path l) {text : String}
    (hitem : fs.item? (l ++ [name]) = some (.file text.toUTF8)) :
    fs.readText (Path.join path name) = .ok text :=
  readText_eq_ok_iff.mpr ⟨_, _, h.resolve_join (h.file name _ hitem).1 hitem, hitem,
    fromUTF8?_toUTF8 text⟩

theorem Flat.names_eq (h : fs.Flat path l) : fs.names path = .ok (fs.namesAt l) := by
  simp [names, h.resolve, h.directory, bind, Except.bind]

/-! ### Changing files -/

/-- Writing under a name puts the file there and nothing else. -/
theorem Flat.write_join (h : fs.Flat path l) (hname : Writable path name) (content : ByteArray) :
    fs.write (Path.join path name) content = .ok (fs.put (l ++ [name]) (.file content)) := by
  unfold write
  rw [h.arrive_join hname]
  cases hitem : fs.item? (l ++ [name]) with
  | none => rfl
  | some item =>
    obtain ⟨-, old, rfl⟩ := h.file name item hitem
    have hfile : fs.isDirectoryAt (l ++ [name]) = false := by simp [isDirectoryAt, hitem]
    simp [hfile, bind, Except.bind]

theorem Flat.writable_of_write (h : fs.Flat path l) (hname : Path.IsName name)
    (hwrite : fs.write (Path.join path name) content = .ok fs') : Writable path name := by
  unfold write at hwrite
  cases harrive : fs.arrive (Path.join path name) with
  | error err => simp [harrive, bind, Except.bind] at hwrite
  | ok a => exact h.writable_of_arrive hname harrive

/-- The place of a name is found, since a path that is not too long does not become so when the
name is taken off. -/
theorem Flat.place_join (h : fs.Flat path l) (hname : Writable path name) :
    fs.place (Path.join path name) = .ok (l ++ [name]) := by
  obtain ⟨names, k, hnames, hpath, hpieces, hjoin, hfront⟩ :=
    Path.exists_pieces_join h.path_ne_empty hname.toIsName
  obtain ⟨n, hfollow⟩ := h.exists_follow hpath
  generalize hspelled : "/".intercalate names ++ "/" = front at hjoin hfront
  have hne : front ≠ "" := by
    rw [← hspelled]
    simp
  have hresolve : fs.resolve front = .ok l := by
    refine resolve_eq_ok_iff.mpr ⟨hne, fun hnul => ?_, fun hlong => ?_, ?_⟩
    · refine hname.nul_notMem ?_
      rw [hjoin, String.toList_append]
      exact List.mem_append_left _ hnul
    · refine hname.path_short ?_
      rw [hjoin, String.utf8ByteSize_append]
      omega
    · have hstart : fs.start front = fs.start path := by
        rw [← start_join fs h.path_ne_empty hname.toIsName, hjoin]
        unfold start
        rw [Path.isAbsolute_append hne]
      rw [hstart, hfront, ← follow_eq_found_iff, hfollow]
      exact follow_eq_found_iff.mpr (leads_replicate h.directory 1)
  have hlast : (Path.pieces (Path.join path name)).reverse = name :: names.reverse := by
    rw [hpieces, List.reverse_concat]
  unfold place
  rw [hlast]
  simp [hnames, hspelled, hresolve, hname.ne_empty, hname.ne_dot, hname.ne_dots, hname.name_short,
    bind, Except.bind]

/-- Removing the file of a name drops it and nothing else. -/
theorem Flat.remove_join (h : fs.Flat path l) (hitem : fs.item? (l ++ [name]) = some item) :
    fs.remove (Path.join path name) = .ok (fs.drop (l ++ [name])) := by
  obtain ⟨hname, content, rfl⟩ := h.file name item hitem
  unfold remove
  rw [h.place_join hname]
  simp [hitem, bind, Except.bind]

end FileSystem

end Mustache
