import Mustache.Proofs.FileSystem.Follow

/-!
What a change to a file system leaves as it was. Putting or dropping an item concerns its own
location, and ways to directories only pass through directories and links: files may come and go
without a path to a directory leading elsewhere. Main statements: `resolve_of_keepsWays` and
`makeDirectories_of_resolve`.
-/

namespace Mustache

theorem lookup_filter_self {α β : Type} [BEq α] [LawfulBEq α] (entries : List (α × β)) (k : α) :
    (entries.filter fun e => e.1 != k).lookup k = none := by
  refine List.lookup_eq_none_iff.mpr fun e he => ?_
  have hne := (List.mem_filter.mp he).2
  rwa [bne_comm]

theorem lookup_filter_of_ne {α β : Type} [BEq α] [LawfulBEq α] (entries : List (α × β))
    {k other : α} (h : other ≠ k) :
    (entries.filter fun e => e.1 != k).lookup other = entries.lookup other := by
  induction entries with
  | nil => rfl
  | cons e rest ih =>
    obtain ⟨a, b⟩ := e
    by_cases ha : a = k
    · subst a
      simp [List.lookup_cons, beq_eq_false_iff_ne.mpr h, ih]
    · simp [List.lookup_cons, ha, ih]

namespace FileSystem

variable {fs fs' : FileSystem} {links : Nat} {l m : Location} {item : Item} {path name : String}
  {names : List String}

/-! ### One item -/

theorem item?_put_self (hl : l ≠ []) : (fs.put l item).item? l = some item := by
  simp [item?, put, hl]

theorem item?_put_of_ne (hm : m ≠ l) : (fs.put l item).item? m = fs.item? m := by
  simp [item?, put, List.lookup_cons, beq_eq_false_iff_ne.mpr hm, lookup_filter_of_ne _ hm]

theorem item?_drop_self (hl : l ≠ []) : (fs.drop l).item? l = none := by
  simp [item?, drop, hl, lookup_filter_self]

theorem item?_drop_of_ne (hm : m ≠ l) : (fs.drop l).item? m = fs.item? m := by
  simp [item?, drop, lookup_filter_of_ne _ hm]

theorem drop_of_item?_eq_none (h : fs.item? l = none) : fs.drop l = fs := by
  have hitems : fs.items.filter (fun e => e.1 != l) = fs.items := by
    refine List.filter_eq_self.mpr fun e he => ?_
    unfold item? at h
    split at h
    · cases h
    · rw [bne_comm]
      exact List.lookup_eq_none_iff.mp h e he
  unfold drop
  rw [hitems]

theorem mem_namesAt : name ∈ fs.namesAt l ↔ (fs.item? (l ++ [name])).isSome := by
  have hlast : ∀ m : Location, (if m.dropLast = l then m.getLast? else none) = some name ↔
      m = l ++ [name] := by
    intro m
    constructor
    · intro h
      split at h
      · rename_i hl
        obtain ⟨before, rfl⟩ := List.getLast?_eq_some_iff.mp h
        rw [← hl, List.dropLast_concat]
      · cases h
    · rintro rfl
      simp
  unfold namesAt item?
  rw [if_neg (by simp), List.lookup_isSome_iff, List.mem_filterMap]
  constructor
  · rintro ⟨⟨m, i⟩, hmem, hm⟩
    exact ⟨(m, i), hmem, by simpa using ((hlast m).mp hm).symm⟩
  · rintro ⟨⟨m, i⟩, hmem, hm⟩
    exact ⟨(m, i), hmem, (hlast m).mpr (by simpa using (beq_iff_eq.mp hm).symm)⟩

theorem nodup_namesAt_drop (h : (fs.namesAt l).Nodup) : ((fs.drop m).namesAt l).Nodup :=
  (List.Sublist.filterMap _ List.filter_sublist).nodup h

theorem nodup_namesAt_put (h : (fs.namesAt l).Nodup) :
    ((fs.put (l ++ [name]) item).namesAt l).Nodup := by
  have hcons : (fs.put (l ++ [name]) item).namesAt l =
      name :: (fs.drop (l ++ [name])).namesAt l := by
    simp [namesAt, put, drop]
  have hnot : name ∉ (fs.drop (l ++ [name])).namesAt l := by
    rw [mem_namesAt, item?_drop_self (by simp)]
    exact Bool.false_ne_true
  rw [hcons]
  exact List.nodup_cons.mpr ⟨hnot, nodup_namesAt_drop h⟩

/-! ### Ways -/

/-- The directories and links of a file system are there in another one. -/
structure KeepsWays (fs fs' : FileSystem) : Prop where
  workingDirectory : fs'.workingDirectory = fs.workingDirectory
  item : ∀ l i, fs.item? l = some i → (∀ content, i ≠ .file content) → fs'.item? l = some i

theorem isDirectoryAt_iff : fs.isDirectoryAt l ↔ fs.item? l = some .directory := by
  unfold isDirectoryAt
  split <;> simp_all

theorem KeepsWays.isDirectoryAt (h : fs.KeepsWays fs') (hl : fs.isDirectoryAt l) :
    fs'.isDirectoryAt l :=
  isDirectoryAt_iff.mpr (h.item l _ (isDirectoryAt_iff.mp hl) fun _ => nofun)

/-- An item that is changed is a file before the change. -/
theorem KeepsWays.of_changed (hworking : fs'.workingDirectory = fs.workingDirectory)
    (hothers : ∀ m, m ≠ l → fs'.item? m = fs.item? m)
    (hl : ∀ i, fs.item? l = some i → ∃ content, i = .file content) : fs.KeepsWays fs' where
  workingDirectory := hworking
  item m i hi hfile := by
    have hm : m ≠ l := by
      rintro rfl
      obtain ⟨content, rfl⟩ := hl i hi
      exact hfile content rfl
    rw [hothers m hm, hi]

/-- A way that ends at a directory begins at one. -/
theorem Leads.isDirectoryAt (h : fs.Leads links l names m) (hm : fs.isDirectoryAt m) :
    fs.isDirectoryAt l := by
  cases h with
  | here => exact hm
  | step hgoes => exact hgoes.isDirectoryAt

/-- Such a way comes to a file nowhere. -/
theorem Leads.keep (h : fs.KeepsWays fs') (hleads : fs.Leads links l names m)
    (hm : fs.isDirectoryAt m) : fs'.Leads links l names m := by
  induction hleads with
  | here => exact .here
  | step hgoes hrest ih =>
    have hnext := hrest.isDirectoryAt hm
    refine .step ?_ (ih hm)
    cases hgoes with
    | stay hdir hname => exact .stay (h.isDirectoryAt hdir) hname
    | up hdir => exact .up (h.isDirectoryAt hdir)
    | down hdir hname hup hsize hitem hlink =>
      have hdirectory := isDirectoryAt_iff.mp hnext
      exact .down (h.isDirectoryAt hdir) hname hup hsize
        (h.item _ _ hdirectory fun _ => nofun) fun _ => nofun
    | link hdir hname hup hsize hitem =>
      exact .link (h.isDirectoryAt hdir) hname hup hsize (h.item _ _ hitem fun _ => nofun)

/-- **A path to a directory leads there as long as directories and links are kept.** -/
theorem resolve_of_keepsWays (h : fs.KeepsWays fs') (hl : fs.resolve path = .ok l)
    (hdir : fs.isDirectoryAt l) : fs'.resolve path = .ok l := by
  obtain ⟨hne, hnul, hlong, hleads⟩ := resolve_eq_ok_iff.mp hl
  refine resolve_eq_ok_iff.mpr ⟨hne, hnul, hlong, ?_⟩
  unfold start at hleads ⊢
  rw [h.workingDirectory]
  exact hleads.keep h hdir

/-! ### Making directories that are there -/

theorem Goes.mono {l' : Location} {links' n : Nat} {more : List String}
    (h : fs.Goes links l name links' l' more) (hle : links ≤ n) :
    ∃ k, links' ≤ k ∧ fs.Goes n l name k l' more := by
  cases h with
  | stay hdir hname => exact ⟨n, hle, .stay hdir hname⟩
  | up hdir => exact ⟨n, hle, .up hdir⟩
  | down hdir hname hup hsize hitem hlink =>
    exact ⟨n, hle, .down hdir hname hup hsize hitem hlink⟩
  | link hdir hname hup hsize hitem =>
    cases n with
    | zero => omega
    | succ n => exact ⟨n, by omega, .link hdir hname hup hsize hitem⟩

/-- More links than needed do no harm. -/
theorem Leads.mono {links' : Nat} (h : fs.Leads links l names m) (hle : links ≤ links') :
    fs.Leads links' l names m := by
  induction h generalizing links' with
  | here => exact .here
  | step hgoes _ ih =>
    obtain ⟨k, hk, hgoes'⟩ := hgoes.mono hle
    exact .step hgoes' (ih hk)

/-- A way in two parts passes through a location between them. -/
theorem Leads.split {more : List String} (h : fs.Leads links l (names ++ more) m) :
    ∃ k b, k ≤ links ∧ fs.Leads links l names b ∧ fs.Leads k b more m ∧
      ∀ rest, fs.follow links l (names ++ rest) = fs.follow k b rest := by
  generalize hway : names ++ more = way at h
  induction h generalizing names with
  | here =>
    obtain ⟨rfl, rfl⟩ := List.append_eq_nil_iff.mp hway
    exact ⟨_, _, le_refl _, .here, .here, fun rest => rfl⟩
  | @step links links' l l' m name before rest hgoes hrest ih =>
    cases names with
    | nil =>
      rw [List.nil_append] at hway
      subst hway
      exact ⟨links, l, le_refl _, .here, .step hgoes hrest, fun rest => rfl⟩
    | cons first names =>
      obtain ⟨rfl, rfl⟩ := List.cons.inj hway
      obtain ⟨k, b, hk, hfirst, hmore, hfollow⟩ := ih (List.append_assoc before names more)
      refine ⟨k, b, hk.trans ?_, .step hgoes hfirst, hmore, fun rest => ?_⟩
      · cases hgoes <;> omega
      · rw [List.cons_append, follow_of_goes hgoes, ← List.append_assoc, hfollow]

theorem makeFrom_of_leads {links : Nat} (hlinks : links ≤ maxLinks) (hm : fs.isDirectoryAt m)
    (h : fs.Leads links l names m) : makeFrom fs l names = .ok fs := by
  induction links using Nat.strongRecOn generalizing l names with
  | _ links ihlinks =>
    induction names generalizing l with
    | nil => rfl
    | cons name rest ihrest =>
      cases h with
      | step hgoes hrest =>
        have hnext := hrest.isDirectoryAt hm
        rw [makeFrom]
        cases hgoes with
        | stay hdir hname =>
          rw [if_pos hname]
          exact ihrest hrest
        | up hdir =>
          simpa using ihrest hrest
        | down hdir hname hup hsize hitem hlink =>
          rw [if_neg hname, if_neg hup, if_neg hsize, isDirectoryAt_iff.mp hnext]
          exact ihrest hrest
        | @link _ _ _ target hdir hname hup hsize hitem =>
          -- the links of the target are counted anew
          obtain ⟨k, b, hk, htarget, hmore, -⟩ := hrest.split
          have hb := hmore.isDirectoryAt hm
          have hfollow : fs.follow maxLinks _ (Path.pieces target) = .ok (.found b) :=
            follow_eq_found_iff.mpr (htarget.mono (by omega))
          simp only [if_neg hname, if_neg hup, if_neg hsize, hitem, hfollow, hb, if_true]
          exact ihlinks k (by omega) (by omega) hmore

/-- **Making a directory that is there changes nothing.** -/
theorem makeDirectories_of_resolve (hl : fs.resolve path = .ok l) (hdir : fs.isDirectoryAt l) :
    fs.makeDirectories path = .ok fs := by
  obtain ⟨hne, hnul, -, hleads⟩ := resolve_eq_ok_iff.mp hl
  have hmake := makeFrom_of_leads (le_refl maxLinks) hdir hleads
  simp only [start] at hmake
  simp [makeDirectories, hne, hnul, hmake]

end FileSystem

end Mustache
