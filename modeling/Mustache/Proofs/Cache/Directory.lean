import Mustache.Cache.Directory
import Mustache.Proofs.Artifact
import Mustache.Proofs.Engine.Compile
import Mustache.Proofs.FileSystem.Flat

/-!
The cache on disk as a map that outlasts its memory. In a directory that nothing else writes to, a
key has the artifact it was last set to, until it is removed or everything is cleared, however often
the cache is opened anew and whatever its memory forgets. Main statement: `directory_recalls`.

This takes a key with a file of its own: file names replace some characters of the keys, and keys
that differ only there share a file. The file of the empty key is never cleared.
-/

namespace Mustache

open Engine (result left)

/-! ### The memory -/

namespace Recent

variable {r : Recent} {key other : String} {a b : Artifact}

theorem of_find?_insert (h : (r.insert key a).find? other = some b) :
    other = key ∧ b = a ∨ other ≠ key ∧ r.find? other = some b := by
  have hall := (List.take_prefix _ _).lookup_eq_some h
  rw [List.lookup_cons] at hall
  by_cases hother : other = key
  · subst other
    rw [beq_self_eq_true] at hall
    exact .inl ⟨rfl, (Option.some.inj hall).symm⟩
  · rw [beq_eq_false_iff_ne.mpr hother] at hall
    exact .inr ⟨hother, by rwa [erase, lookup_filter_of_ne _ hother] at hall⟩

theorem of_find?_touch (h : (r.touch key).find? other = some b) : r.find? other = some b := by
  unfold touch at h
  split at h
  · rename_i a hkey
    obtain ⟨rfl, rfl⟩ | ⟨-, h⟩ := of_find?_insert h
    · exact hkey
    · exact h
  · exact h

theorem find?_erase_self : (r.erase key).find? key = none := lookup_filter_self _ key

theorem find?_erase_of_ne (h : other ≠ key) : (r.erase key).find? other = r.find? other :=
  lookup_filter_of_ne _ h

end Recent

namespace Cache

/-! ### File names -/

theorem toList_fileName (key : String) : (fileName key).toList =
    (key.toList.map fun c => if isUnsafe c then '_' else c) ++ ['.', 'j', 's', 'o', 'n'] := by
  rw [fileName, String.toList_append, String.toList_ofList]
  rfl

theorem notMem_safe {c : Char} (hc : isUnsafe c) (hne : c ≠ '_') (key : String) :
    c ∉ key.toList.map fun d => if isUnsafe d then '_' else d := by
  intro hmem
  obtain ⟨d, -, hd⟩ := List.mem_map.mp hmem
  split at hd
  · exact hne hd.symm
  · rename_i hsafe
    exact hsafe (hd ▸ hc)

theorem isName_fileName (key : String) : Path.IsName (fileName key) := by
  have hlength : ∀ s : String, s.toList.length < 5 → fileName key ≠ s := by
    rintro s hs rfl
    rw [toList_fileName] at hs
    simp at hs
  refine ⟨?_, hlength "" (by decide), hlength "." (by decide), hlength ".." (by decide)⟩
  rw [toList_fileName]
  intro hmem
  obtain hmem | hmem := List.mem_append.mp hmem
  · exact notMem_safe (by decide) (by decide) key hmem
  · exact absurd hmem (by decide)

/-- The files of artifacts are told by their ending. The name of the empty key's file is nothing
else, and so it is not taken for one. -/
theorem extension?_filePath {path : String} (hpath : path ≠ "") (key : String) :
    Path.extension? (filePath path key) = if key = "" then .none else some "json" := by
  have hempty : (key.toList.map fun c => if isUnsafe c then '_' else c) = [] ↔ key = "" := by
    rw [List.map_eq_nil_iff, String.toList_eq_nil_iff]
  unfold Path.extension? filePath
  rw [Path.fileName?_join hpath (isName_fileName key)]
  generalize hsafe : (key.toList.map fun c => if isUnsafe c then '_' else c) = safe at hempty
  have hreverse : (fileName key).toList.reverse =
      'n' :: 'o' :: 's' :: 'j' :: '.' :: safe.reverse := by
    rw [toList_fileName, hsafe, List.reverse_append]
    rfl
  have hafter : (fileName key).toList.reverse.takeWhile (· != '.') = ['n', 'o', 's', 'j'] := by
    rw [hreverse]
    simp
  simp only [bind, Option.bind, hafter]
  rw [hreverse]
  by_cases hkey : key = ""
  · rw [hempty.mpr hkey, if_pos hkey]
    rfl
  · have hlong : 0 < safe.length := List.length_pos_iff.mpr (mt hempty.mp hkey)
    rw [guard, if_pos (by simpa using hlong), if_neg hkey]
    rfl

/-! ### The cache of a directory -/

/-- The cache in a directory, in a world of the file system and the memory. -/
def onDisk (path : String) : Cache (FileSystem × Recent) :=
  directory ⟨Prod.fst, fun fs w => (fs, w.2)⟩ ⟨Prod.snd, fun r w => (w.1, r)⟩ path

section

variable {path key : String} {l : Location} {w : FileSystem × Recent}

/-- What getting gives: what the memory holds, or else what the file does. -/
theorem result_get (key : String) (w : FileSystem × Recent) :
    result ((onDisk path).get key) w = match w.2.find? key with
      | some a => .ok (some a)
      | .none => fetch w.1 path key := by
  unfold result onDisk directory
  dsimp only
  cases w.2.find? key with
  | some a => rfl
  | none => rcases fetch w.1 path key with err | _ | a <;> rfl

/-- Getting changes no file, and the memory comes to hold at most what is in the file. -/
theorem left_get (path key other : String) (w : FileSystem × Recent) :
    (left ((onDisk path).get other) w).1 = w.1 ∧
      ∀ a, (left ((onDisk path).get other) w).2.find? key = some a →
        w.2.find? key = some a ∨ key = other ∧ fetch w.1 path other = .ok (some a) := by
  unfold left onDisk directory
  dsimp only
  cases w.2.find? other with
  | some a => exact ⟨rfl, fun b hb => .inl (Recent.of_find?_touch hb)⟩
  | none =>
    rcases hfetch : fetch w.1 path other with err | _ | a
    · exact ⟨rfl, fun b hb => .inl hb⟩
    · exact ⟨rfl, fun b hb => .inl hb⟩
    · refine ⟨rfl, fun b hb => ?_⟩
      obtain ⟨hkey, rfl⟩ | ⟨-, hb⟩ := Recent.of_find?_insert hb
      · exact .inr ⟨hkey, rfl⟩
      · exact .inl hb

theorem set_of_writable (h : w.1.Flat path l) (hkey : FileSystem.Writable path (fileName key))
    (a : Artifact) : (onDisk path).set key a w =
      .ok () (w.1.put (l ++ [fileName key]) (.file a.text.toUTF8), w.2.insert key a) := by
  unfold onDisk directory filePath
  simp [onFiles, Focus.modify, h.write_join hkey]

/-- Setting reaches the memory, and the file unless that cannot be written. -/
theorem set_cases (h : w.1.Flat path l) (key : String) (a : Artifact) :
    (FileSystem.Writable path (fileName key) ∧ (onDisk path).set key a w =
      .ok () (w.1.put (l ++ [fileName key]) (.file a.text.toUTF8), w.2.insert key a)) ∨
    ∃ err, (onDisk path).set key a w = .error err (w.1, w.2.insert key a) := by
  by_cases hkey : FileSystem.Writable path (fileName key)
  · exact .inl ⟨hkey, set_of_writable h hkey a⟩
  · refine .inr ?_
    unfold onDisk directory
    dsimp only
    cases hwrite : w.1.write (filePath path key) a.text.toUTF8 with
    | ok fs => exact absurd (h.writable_of_write (isName_fileName key) hwrite) hkey
    | error err =>
      refine ⟨.cache (.writeFile err), ?_⟩
      dsimp only [Focus.modify]
      rw [hwrite]
      rfl

/-- Removing drops the file, if there is one. -/
theorem remove_eq (h : w.1.Flat path l) (key : String) : (onDisk path).remove key w =
    .ok () (w.1.drop (l ++ [fileName key]), w.2.erase key) := by
  have hdiscard : discard w.1 path key = .ok (w.1.drop (l ++ [fileName key])) := by
    unfold discard filePath
    dsimp only
    rw [h.has_join (isName_fileName key)]
    cases hitem : w.1.item? (l ++ [fileName key]) with
    | none => rw [FileSystem.drop_of_item?_eq_none hitem]; rfl
    | some item => rw [h.remove_join hitem]; rfl
  unfold onDisk directory
  simp [Focus.modify, hdiscard]

theorem discardAll_join {names : List String} {fs : FileSystem} (h : fs.Flat path l)
    (hnodup : names.Nodup) (hall : ∀ name ∈ names, (fs.item? (l ++ [name])).isSome) :
    ∃ fs' : FileSystem, discardAll (names.map (Path.join path)) fs = (.ok (), fs') ∧
      fs'.Flat path l ∧ ∀ name, fs'.item? (l ++ [name]) =
        if name ∈ names then .none else fs.item? (l ++ [name]) := by
  induction names generalizing fs with
  | nil => exact ⟨fs, rfl, h, fun name => by simp⟩
  | cons name names ih =>
    obtain ⟨hnotMem, hnodup⟩ := List.nodup_cons.mp hnodup
    obtain ⟨item, hitem⟩ := Option.isSome_iff_exists.mp (hall name List.mem_cons_self)
    have hother : ∀ other, other ≠ name →
        (fs.drop (l ++ [name])).item? (l ++ [other]) = fs.item? (l ++ [other]) :=
      fun other hne => FileSystem.item?_drop_of_ne (FileSystem.concat_ne_concat hne)
    -- the names differ, so the files still to be dropped are there when their turn comes
    obtain ⟨fs', hdiscard, hflat, hafter⟩ := ih (h.drop name) hnodup fun other hmem => by
      rw [hother other (by rintro rfl; exact hnotMem hmem)]
      exact hall other (List.mem_cons_of_mem name hmem)
    refine ⟨fs', ?_, hflat, fun other => ?_⟩
    · rw [List.map_cons, discardAll, h.remove_join hitem]
      exact hdiscard
    · rw [hafter other]
      by_cases hne : other = name
      · subst other
        rw [FileSystem.item?_drop_self (FileSystem.concat_ne_nil l name)]
        simp
      · simp [hne, hother other hne]

/-- The name is that of a file which may be an artifact. -/
def isStored (fs : FileSystem) (path name : String) : Bool :=
  fs.isFile (Path.join path name) && Path.extension? (Path.join path name) == some "json"

theorem isStored_fileName {fs : FileSystem} (h : fs.Flat path l) (key : String) :
    isStored fs path (fileName key) ↔ (fs.item? (l ++ [fileName key])).isSome ∧ key ≠ "" := by
  have hextension := extension?_filePath h.path_ne_empty key
  unfold filePath at hextension
  unfold isStored
  rw [h.isFile_join (isName_fileName key), hextension]
  by_cases hkey : key = "" <;> simp [hkey]

theorem stored_eq {fs : FileSystem} (h : fs.Flat path l) :
    stored fs path = .ok (((fs.namesAt l).filter (isStored fs path)).map (Path.join path)) := by
  unfold stored
  rw [h.names_eq]
  exact congrArg Except.ok List.filter_map

/-- Clearing forgets everything in the memory and drops the files of all keys but the empty one. -/
theorem clear_eq (h : w.1.Flat path l) : ∃ fs : FileSystem,
    (onDisk path).clear w = .ok () (fs, w.2.clear) ∧ fs.Flat path l ∧
      ∀ key, fs.item? (l ++ [fileName key]) =
        if key = "" then w.1.item? (l ++ [fileName key]) else .none := by
  obtain ⟨fs, hdiscard, hflat, hafter⟩ := discardAll_join h (h.nodup.filter (isStored w.1 path))
    fun name hname => FileSystem.mem_namesAt.mp (List.mem_filter.mp hname).1
  refine ⟨fs, ?_, hflat, fun key => ?_⟩
  · unfold onDisk directory
    dsimp only [Focus.modify]
    rw [stored_eq h]
    dsimp only
    rw [hdiscard]
  · rw [hafter]
    simp only [List.mem_filter, FileSystem.mem_namesAt, isStored_fileName h]
    cases w.1.item? (l ++ [fileName key]) <;> by_cases hkey : key = "" <;> simp [hkey]

theorem fetch_of_none {fs : FileSystem} (h : fs.Flat path l)
    (hitem : fs.item? (l ++ [fileName key]) = .none) : fetch fs path key = .ok .none := by
  unfold fetch filePath
  dsimp only
  rw [h.has_join (isName_fileName key), hitem]
  rfl

/-- An artifact in the file of a key counts if it is the artifact of that key. -/
theorem fetch_of_file {fs : FileSystem} (h : fs.Flat path l) {a : Artifact} (ha : a.Legible)
    (hitem : fs.item? (l ++ [fileName key]) = some (.file a.text.toUTF8)) :
    fetch fs path key = .ok (if a.key = key then some a else .none) := by
  unfold fetch filePath
  dsimp only
  rw [h.has_join (isName_fileName key), hitem, h.readText_join hitem]
  simp [onFiles, bind, Except.bind, Artifact.ofText?_text ha, pure, Except.pure]

end

/-! ### Runs -/

/-- What can be asked of a cache on disk. To open it anew is to make its directory again and begin
with an empty memory. -/
inductive Request
  | get (key : String)
  | set (key : String) (a : Artifact)
  | remove (key : String)
  | clear
  | has (key : String)
  | reopen (capacity : Nat)

namespace Request

/-- The key that a request is about. -/
def key? : Request → Option String
  | get key | set key _ | remove key | has key => some key
  | clear | reopen _ => .none

/-- The key that a request gives another artifact or none. -/
def changed? : Request → Option String
  | set key _ | remove key => some key
  | _ => .none

/-- What a request leaves, whether it succeeds or not. -/
def perform (path : String) (w : FileSystem × Recent) : Request → FileSystem × Recent
  | get key => left ((onDisk path).get key) w
  | set key a => left ((onDisk path).set key a) w
  | remove key => left ((onDisk path).remove key) w
  | clear => left (onDisk path).clear w
  | has _ => w
  | reopen capacity =>
    match makeDirectory w.1 path with
    | .ok fs => (fs, .ofCapacity capacity)
    | .error _ => w

/-- What a request makes of the artifact that a key has. -/
def remember (key : String) (last : Option Artifact) : Request → Option Artifact
  | set other a => if other = key then some a else last
  | remove other => if other = key then .none else last
  | clear => .none
  | _ => last

end Request

def run (path : String) (requests : List Request) (w : FileSystem × Recent) :
    FileSystem × Recent :=
  requests.foldl (Request.perform path) w

/-- The artifact that a key was last set to, unless it was removed or all was cleared since. -/
def recalled (key : String) (requests : List Request) : Option Artifact :=
  requests.foldl (Request.remember key) .none

/-- What getting a key gives, and whether it is said to be there. -/
def reports (path key : String) (w : FileSystem × Recent) : Except Error (Option Artifact) × Bool :=
  (result ((onDisk path).get key) w, (onDisk path).has key w)

/-- The directory and the memory keep an artifact under a key: the file has it, and the memory has
nothing else. -/
structure Keeps (path : String) (l : Location) (key : String) (last : Option Artifact)
    (w : FileSystem × Recent) : Prop where
  flat : w.1.Flat path l
  file : w.1.item? (l ++ [fileName key]) = last.map fun a => .file a.text.toUTF8
  memory : ∀ a, w.2.find? key = some a → last = some a
  own : ∀ a, last = some a → a.key = key ∧ a.Legible

section

variable {path key : String} {l : Location} {w : FileSystem × Recent} {last : Option Artifact}

theorem Keeps.fetch_eq (h : Keeps path l key last w) : fetch w.1 path key = .ok last := by
  cases last with
  | none => exact fetch_of_none h.flat h.file
  | some a =>
    obtain ⟨hkey, hlegible⟩ := h.own a rfl
    rw [fetch_of_file h.flat hlegible h.file, if_pos hkey]

theorem Keeps.reports_eq (h : Keeps path l key last w) :
    reports path key w = (.ok last, last.isSome) := by
  have hhas : (onDisk path).has key w =
      ((w.2.find? key).isSome || (w.1.item? (l ++ [fileName key])).isSome) := by
    rw [← h.flat.has_join (isName_fileName key)]
    rfl
  unfold reports
  rw [result_get, hhas, h.file]
  cases hfind : w.2.find? key with
  | none => rw [h.fetch_eq]; cases last <;> rfl
  | some a => rw [h.memory a hfind]; rfl

/-! Each request keeps the artifact or replaces it as it should. -/

theorem Keeps.get (h : Keeps path l key last w) (other : String) :
    Keeps path l key last (left ((onDisk path).get other) w) := by
  obtain ⟨hfiles, hmemory⟩ := left_get path key other w
  refine ⟨?_, ?_, fun a ha => ?_, h.own⟩
  · rw [hfiles]
    exact h.flat
  · rw [hfiles]
    exact h.file
  · obtain hfind | ⟨rfl, hfetch⟩ := hmemory a ha
    · exact h.memory a hfind
    · -- what came into the memory was read from the file
      rw [h.fetch_eq] at hfetch
      exact Except.ok.inj hfetch

theorem Keeps.set (h : Keeps path l key last w) {a : Artifact} (hown : a.key = key ∧ a.Legible)
    (hwrite : ∃ fs, w.1.write (filePath path key) a.text.toUTF8 = .ok fs) :
    Keeps path l key (some a) (left ((onDisk path).set key a) w) := by
  obtain ⟨fs, hfs⟩ := hwrite
  have hkey := h.flat.writable_of_write (isName_fileName key) hfs
  rw [Engine.left_of_ok (set_of_writable h.flat hkey a)]
  refine ⟨h.flat.put hkey _, FileSystem.item?_put_self (FileSystem.concat_ne_nil l _), ?_, ?_⟩
  · intro b hb
    obtain ⟨-, rfl⟩ | ⟨hne, -⟩ := Recent.of_find?_insert hb
    · rfl
    · exact absurd rfl hne
  · rintro b hb
    cases hb
    exact hown

theorem Keeps.set_other (h : Keeps path l key last w) {other : String}
    (hfile : fileName other ≠ fileName key) (a : Artifact) :
    Keeps path l key last (left ((onDisk path).set other a) w) := by
  have hmemory : ∀ b, (w.2.insert other a).find? key = some b → last = some b := by
    intro b hb
    obtain ⟨rfl, -⟩ | ⟨-, hb⟩ := Recent.of_find?_insert hb
    · exact absurd rfl hfile
    · exact h.memory b hb
  obtain ⟨hother, hset⟩ | ⟨err, hset⟩ := set_cases h.flat other a
  · rw [Engine.left_of_ok hset]
    refine ⟨h.flat.put hother _, ?_, hmemory, h.own⟩
    rw [← h.file]
    exact FileSystem.item?_put_of_ne (FileSystem.concat_ne_concat hfile.symm)
  · rw [Engine.left_of_error hset]
    exact ⟨h.flat, h.file, hmemory, h.own⟩

theorem Keeps.remove (h : Keeps path l key last w) :
    Keeps path l key .none (left ((onDisk path).remove key) w) := by
  rw [Engine.left_of_ok (remove_eq h.flat key)]
  refine ⟨h.flat.drop _, FileSystem.item?_drop_self (FileSystem.concat_ne_nil l _), ?_, nofun⟩
  intro a ha
  rw [Recent.find?_erase_self] at ha
  cases ha

theorem Keeps.remove_other (h : Keeps path l key last w) {other : String}
    (hfile : fileName other ≠ fileName key) :
    Keeps path l key last (left ((onDisk path).remove other) w) := by
  have hne : key ≠ other := by
    rintro rfl
    exact hfile rfl
  rw [Engine.left_of_ok (remove_eq h.flat other)]
  refine ⟨h.flat.drop _, ?_, fun a ha => ?_, h.own⟩
  · rw [← h.file]
    exact FileSystem.item?_drop_of_ne (FileSystem.concat_ne_concat hfile.symm)
  · rw [Recent.find?_erase_of_ne hne] at ha
    exact h.memory a ha

theorem Keeps.clear (h : Keeps path l key last w) (hkey : key ≠ "") :
    Keeps path l key .none (left (onDisk path).clear w) := by
  obtain ⟨fs, hclear, hflat, hfiles⟩ := clear_eq h.flat
  rw [Engine.left_of_ok hclear]
  exact ⟨hflat, (hfiles key).trans (if_neg hkey), nofun, nofun⟩

/-- The empty key keeps its artifact when all is cleared. -/
theorem Keeps.clear_empty (h : Keeps path l "" last w) :
    Keeps path l "" last (left (onDisk path).clear w) := by
  obtain ⟨fs, hclear, hflat, hfiles⟩ := clear_eq h.flat
  rw [Engine.left_of_ok hclear]
  exact ⟨hflat, (hfiles "").trans h.file, nofun, h.own⟩

theorem Keeps.reopen (h : Keeps path l key last w) (capacity : Nat) :
    Keeps path l key last ((Request.reopen capacity).perform path w) := by
  have hmake : makeDirectory w.1 path = .ok w.1 := by
    unfold makeDirectory
    rw [FileSystem.makeDirectories_of_resolve h.flat.resolve h.flat.directory]
    rfl
  unfold Request.perform
  dsimp only
  rw [hmake]
  exact ⟨h.flat, h.file, nofun, h.own⟩

/-- **A request leaves a key with what it makes of the key's artifact.** -/
theorem Keeps.perform (h : Keeps path l key last w) {r : Request}
    (hown : ∀ a, r = .set key a → a.key = key ∧ a.Legible)
    (hwrite : ∀ a, r = .set key a →
      ∃ fs, w.1.write (filePath path key) a.text.toUTF8 = .ok fs)
    (hfile : ∀ other, r.changed? = some other → fileName other = fileName key → other = key)
    (hclear : r = .clear → key ≠ "") :
    Keeps path l key (r.remember key last) (r.perform path w) := by
  cases r with
  | get other => exact h.get other
  | set other a =>
    by_cases hother : other = key
    · subst other
      rw [Request.remember, if_pos rfl]
      exact h.set (hown a rfl) (hwrite a rfl)
    · rw [Request.remember, if_neg hother]
      exact h.set_other (fun heq => hother (hfile other rfl heq)) a
  | remove other =>
    by_cases hother : other = key
    · subst other
      rw [Request.remember, if_pos rfl]
      exact h.remove
    · rw [Request.remember, if_neg hother]
      exact h.remove_other fun heq => hother (hfile other rfl heq)
  | clear => exact h.clear (hclear rfl)
  | has other => exact h
  | reopen capacity => exact h.reopen capacity

/-- A request about another key, which has a file of its own, leaves the artifact. -/
theorem Keeps.perform_aside (h : Keeps path l key last w) {r : Request} {other : String}
    (hkey : r.key? = some other)
    (hapart : r.changed? = some other → fileName other ≠ fileName key) :
    Keeps path l key last (r.perform path w) := by
  cases r with
  | get k => exact h.get k
  | set k a =>
    obtain rfl := Option.some.inj hkey
    exact h.set_other (hapart rfl) a
  | remove k =>
    obtain rfl := Option.some.inj hkey
    exact h.remove_other (hapart rfl)
  | has k => exact h
  | clear | reopen capacity => cases hkey

theorem Keeps.run {requests : List Request} (h : Keeps path l key last w)
    (hown : ∀ a, .set key a ∈ requests → a.key = key ∧ a.Legible)
    (hwrite : ∀ before a after, requests = before ++ .set key a :: after →
      ∃ fs, (run path before w).1.write (filePath path key) a.text.toUTF8 = .ok fs)
    (hfile : ∀ r ∈ requests, ∀ other, r.changed? = some other →
      fileName other = fileName key → other = key)
    (hclear : .clear ∈ requests → key ≠ "") :
    Keeps path l key (requests.foldl (Request.remember key) last) (run path requests w) := by
  induction requests generalizing last w with
  | nil => exact h
  | cons r rest ih =>
    have hfirst : Keeps path l key (r.remember key last) (r.perform path w) := h.perform
      (fun a ha => hown a (ha ▸ List.mem_cons_self)) (fun a ha => hwrite [] a rest (ha ▸ rfl))
      (hfile r List.mem_cons_self) fun hr => hclear (hr ▸ List.mem_cons_self)
    exact ih hfirst (fun a ha => hown a (List.mem_cons_of_mem r ha))
      (fun before a after heq => hwrite (r :: before) a after (by rw [heq]; rfl))
      (fun r' hr' => hfile r' (List.mem_cons_of_mem r hr'))
      fun hmem => hclear (List.mem_cons_of_mem r hmem)

end

/-- **A cache on disk is a map that lasts.** Opened in an empty directory and then asked anything in
any order, it gives for a key the artifact that the key was last set to, unless the key was removed
or all was cleared since, and says that the key is there just when it gives something; a request
about another key does not change this. The key has a file that no other key's artifacts are set or
removed in, its own artifacts are legible and their files can be written, and if it is empty,
nothing is cleared. -/
theorem directory_recalls {fs : FileSystem} {path : String} {l : Location} {capacity : Nat}
    {requests : List Request} {key : String} (hpath : fs.resolve path = .ok l)
    (hdir : fs.isDirectoryAt l) (hempty : fs.namesAt l = [])
    (hown : ∀ a, .set key a ∈ requests → a.key = key ∧ a.Legible)
    (hwrite : ∀ before a after, requests = before ++ .set key a :: after →
      ∃ fs', (run path before (fs, .ofCapacity capacity)).1.write (filePath path key)
        a.text.toUTF8 = .ok fs')
    (hfile : ∀ r ∈ requests, ∀ other, r.changed? = some other →
      fileName other = fileName key → other = key)
    (hclear : .clear ∈ requests → key ≠ "") :
    reports path key (run path requests (fs, .ofCapacity capacity)) =
        (.ok (recalled key requests), (recalled key requests).isSome) ∧
      ∀ (r : Request) (other : String), r.key? = some other →
        (r.changed? = some other → fileName other ≠ fileName key) →
        reports path key (r.perform path (run path requests (fs, .ofCapacity capacity))) =
          reports path key (run path requests (fs, .ofCapacity capacity)) := by
  have hstart : Keeps path l key .none (fs, .ofCapacity capacity) := by
    have hnot : fileName key ∉ fs.namesAt l := by simp [hempty]
    rw [FileSystem.mem_namesAt] at hnot
    exact ⟨.of_empty hpath hdir hempty, Option.not_isSome_iff_eq_none.mp hnot, nofun, nofun⟩
  have hrun := hstart.run hown hwrite hfile hclear
  refine ⟨hrun.reports_eq, fun r other hkey hapart => ?_⟩
  rw [(hrun.perform_aside hkey hapart).reports_eq]
  exact hrun.reports_eq.symm

/-! ### In an empty directory -/

/-- A directory with nothing in it. -/
def emptyFiles : FileSystem := ⟨[(["cache"], .directory)], []⟩

/-- The parsed template of one letter. -/
def letter (key : String) : Artifact := ⟨"letter", key, "x", [.text "x"]⟩

theorem resolve_cache : emptyFiles.resolve "cache" = .ok ["cache"] := by
  refine FileSystem.resolve_eq_ok_iff.mpr ⟨by decide, by decide, by decide, ?_⟩
  refine .step (.down rfl (by decide) (by decide) (by decide) rfl fun _ h => nomatch h) ?_
  exact .here

theorem flat_emptyFiles : emptyFiles.Flat "cache" ["cache"] := .of_empty resolve_cache rfl rfl

theorem legible_letter (key : String) : (letter key).Legible where
  plain := rfl
  shallow := by
    have hdepth : (letter key).toJson.depth = 4 := rfl
    rw [hdepth]
    decide

theorem directory_recalls_reopened :
    let requests : List Request := [.set "a" (letter "a"), .set "b" (letter "b"), .remove "b",
      .reopen 0, .get "a"]
    (∀ before a after, requests = before ++ .set "a" a :: after →
      ∃ fs, (run "cache" before (emptyFiles, .ofCapacity 0)).1.write (filePath "cache" "a")
        a.text.toUTF8 = .ok fs) ∧
    reports "cache" "a" (run "cache" requests (emptyFiles, .ofCapacity 0)) =
      (.ok (some (letter "a")), true) := by
  intro requests
  have hown : ∀ a, .set "a" a ∈ requests → a = letter "a" := by
    intro a ha
    simpa [requests] using ha
  have hwrite : ∀ before a after, requests = before ++ .set "a" a :: after →
      ∃ fs, (run "cache" before (emptyFiles, .ofCapacity 0)).1.write (filePath "cache" "a")
        a.text.toUTF8 = .ok fs := by
    intro before a after heq
    cases before with
    | nil =>
      have hname : FileSystem.Writable "cache" (fileName "a") :=
        ⟨isName_fileName "a", by decide, by decide, by decide⟩
      exact ⟨_, flat_emptyFiles.write_join hname _⟩
    | cons r before =>
      have hmem : Request.set "a" a ∈ requests.tail := by rw [heq]; simp
      simp [requests] at hmem
  refine ⟨hwrite, (directory_recalls resolve_cache rfl rfl ?_ hwrite ?_ ?_).1⟩
  · intro a ha
    rw [hown a ha]
    exact ⟨rfl, legible_letter "a"⟩
  · have hb : fileName "b" ≠ fileName "a" := by decide
    intro r hr other hother heq
    simp only [requests, List.mem_cons, List.not_mem_nil, or_false] at hr
    obtain rfl | rfl | rfl | rfl | rfl := hr
    · exact (Option.some.inj hother).symm
    · obtain rfl := Option.some.inj hother
      exact absurd heq hb
    · obtain rfl := Option.some.inj hother
      exact absurd heq hb
    · cases hother
    · cases hother
  · simp [requests]

/-! ### Keys that share a file -/

/-- A key whose file another key's artifact is in is said to be there, and getting it gives
nothing. -/
theorem reports_shared {path key : String} {l : Location} {w : FileSystem × Recent} {a : Artifact}
    (h : w.1.Flat path l) (hfile : w.1.item? (l ++ [fileName key]) = some (.file a.text.toUTF8))
    (ha : a.Legible) (hkey : a.key ≠ key) (hmemory : w.2.find? key = .none) :
    reports path key w = (.ok .none, true) := by
  have hhas : (onDisk path).has key w = true := by
    have hthere := h.has_join (isName_fileName key)
    rw [hfile] at hthere
    exact Bool.or_eq_true_iff.mpr (.inr hthere)
  unfold reports
  rw [result_get, hmemory, hhas]
  dsimp only
  rw [fetch_of_file h ha hfile, if_neg hkey]

/-- Of two keys that share a file, the one that was set first is lost once the memory forgets it. -/
theorem shared_file_lost :
    let requests : List Request := [.set "a.b" (letter "a.b"), .set "a_b" (letter "a_b")]
    reports "cache" "a.b" (run "cache" requests (emptyFiles, .ofCapacity 1)) = (.ok .none, true) ∧
      recalled "a.b" requests = some (letter "a.b") := by
  intro requests
  have hwritable : ∀ key ∈ ["a.b", "a_b"], FileSystem.Writable "cache" (fileName key) := by
    intro key hkey
    refine ⟨isName_fileName key, ?_, ?_, ?_⟩ <;> revert key <;> decide
  have hfirst := hwritable "a.b" (by decide)
  have hsecond := hwritable "a_b" (by decide)
  have hflat := flat_emptyFiles.put hfirst (letter "a.b").text.toUTF8
  have hrun : run "cache" requests (emptyFiles, .ofCapacity 1) =
      ((emptyFiles.put (["cache"] ++ [fileName "a.b"]) (.file (letter "a.b").text.toUTF8)).put
          (["cache"] ++ [fileName "a_b"]) (.file (letter "a_b").text.toUTF8),
        ((Recent.ofCapacity 1).insert "a.b" (letter "a.b")).insert "a_b" (letter "a_b")) := by
    have hset := Engine.left_of_ok
      (set_of_writable (w := (emptyFiles, .ofCapacity 1)) flat_emptyFiles hfirst (letter "a.b"))
    change left ((onDisk "cache").set "a_b" (letter "a_b"))
      (left ((onDisk "cache").set "a.b" (letter "a.b")) _) = _
    rw [hset]
    exact Engine.left_of_ok (set_of_writable hflat hsecond _)
  have hsame : fileName "a.b" = fileName "a_b" := by decide
  refine ⟨?_, rfl⟩
  rw [hrun]
  refine reports_shared (hflat.put hsecond _) ?_ (legible_letter "a_b") (by decide) rfl
  rw [hsame]
  exact FileSystem.item?_put_self (FileSystem.concat_ne_nil _ _)

end Cache

end Mustache
