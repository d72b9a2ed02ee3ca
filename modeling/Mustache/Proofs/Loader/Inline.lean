import Mathlib.Data.List.Induction
import Mustache.Loader.Inline
import Mustache.Proofs.Text.Line

/-!
Several templates in one text, told apart by its header lines. The lines of such a text fall into
those of a preamble and those of sections, each a header line and the lines up to the next one, and
in one way only. Main statement: `templates_divided`.
-/

namespace Mustache

/-- Of entries put into a table one after the other the last of a name counts. -/
theorem Table.find?_ofList {α : Type} (entries : List (String × α)) (name : String) :
    (Table.ofList entries).find? name =
      (entries.reverse.find? fun e => e.1 == name).map Prod.snd := by
  unfold Table.ofList
  induction entries using List.reverseRecOn with
  | nil => rfl
  | append_singleton entries e ih =>
    rw [List.foldl_append, List.foldl_cons, List.foldl_nil, find?_insert, ih, List.reverse_append,
      List.reverse_singleton, List.singleton_append, List.find?_cons]
    by_cases h : name = e.1
    · rw [if_pos h, h, beq_self_eq_true]
      rfl
    · rw [if_neg h, beq_eq_false_iff_ne.mpr (Ne.symm h)]

namespace Inline

/-! ### Header lines -/

/-- A header for the name, without the end of its line: two at signs, blanks, the name, and perhaps
more blanks. -/
def Names (content : List Char) (name : String) : Prop :=
  ∃ blanks trail, content = '@' :: '@' :: (blanks ++ name.toList ++ trail) ∧
    blanks ≠ [] ∧ (∀ c ∈ blanks, isBlank c = true) ∧
    name ≠ "" ∧ (∀ c ∈ name.toList, isNameChar c = true) ∧ ∀ c ∈ trail, isBlank c = true

/-- The line is a header for the name. It ends in a newline or with the text; a carriage return in
front of its end counts for nothing. -/
def Heads (line : List Char) (name : String) : Prop :=
  ∃ content ending, line = content ++ ending ∧
    ending ∈ [[], ['\r'], ['\n'], ['\r', '\n']] ∧ Names content name

theorem isBlank_eq_false_of_isNameChar {c : Char} (h : isNameChar c = true) :
    isBlank c = false := by
  rw [isBlank, Bool.or_eq_false_iff, beq_eq_false_iff_ne, beq_eq_false_iff_ne]
  constructor <;> (rintro rfl; exact absurd h (by decide))

theorem header?_cons (cs : List Char) : header? ('@' :: '@' :: cs) =
    let name := cs.dropWhile isBlank
    let rest := (name.dropWhile isNameChar).dropWhile isBlank
    if name.length < cs.length ∧ (name.head?.any isNameChar) ∧
        (rest = ['\n'] ∨ rest = ['\r', '\n']) then
      some (String.ofList (name.takeWhile isNameChar))
    else none := rfl

/-- What each stage of the reading of a header leaves. -/
theorem dropWhile_of_names {blanks trail ending : List Char} {name : String}
    (hblanks : ∀ c ∈ blanks, isBlank c = true) (hname : name ≠ "")
    (hchars : ∀ c ∈ name.toList, isNameChar c = true) (htrail : ∀ c ∈ trail, isBlank c = true)
    (hending : ending = ['\n'] ∨ ending = ['\r', '\n']) :
    (blanks ++ (name.toList ++ (trail ++ ending))).dropWhile isBlank =
        name.toList ++ (trail ++ ending) ∧
      ((name.toList ++ (trail ++ ending)).takeWhile isNameChar = name.toList ∧
        (name.toList ++ (trail ++ ending)).dropWhile isNameChar = trail ++ ending) ∧
      (trail ++ ending).dropWhile isBlank = ending := by
  have hend : ∀ c ∈ ending.head?, ¬ isBlank c = true ∧ ¬ isNameChar c = true := by
    rcases hending with rfl | rfl <;> (rintro _ ⟨⟩; decide)
  refine ⟨(Text.takeWhile_behind hblanks fun c hc => ?_).2,
    Text.takeWhile_behind hchars fun c hc => ?_,
    (Text.takeWhile_behind htrail fun c hc => (hend c hc).1).2⟩
  · have hc' : c ∈ name.toList := by
      cases hcs : name.toList with
      | nil => exact absurd (String.toList_eq_nil_iff.mp hcs) hname
      | cons d ds =>
        rw [hcs] at hc
        obtain rfl := Option.some.inj hc
        exact List.mem_cons_self
    simp [isBlank_eq_false_of_isNameChar (hchars c hc')]
  · cases trail with
    | nil => exact (hend c hc).2
    | cons d trail =>
      obtain rfl := Option.some.inj hc
      intro hnamed
      have hblank := htrail d List.mem_cons_self
      simp [isBlank_eq_false_of_isNameChar hnamed] at hblank

theorem header?_of_names {content ending : List Char} {name : String} (h : Names content name)
    (hending : ending = ['\n'] ∨ ending = ['\r', '\n']) :
    header? (content ++ ending) = some name := by
  obtain ⟨blanks, trail, rfl, hne, hblanks, hname, hchars, htrail⟩ := h
  obtain ⟨hdrop, ⟨htake, hrest⟩, hend⟩ := dropWhile_of_names hblanks hname hchars htrail hending
  have hassoc : '@' :: '@' :: (blanks ++ name.toList ++ trail) ++ ending =
      '@' :: '@' :: (blanks ++ (name.toList ++ (trail ++ ending))) := by simp
  rw [hassoc, header?_cons]
  simp only [hdrop, htake, hrest, hend, String.ofList_toList]
  refine if_pos ⟨?_, ?_, hending⟩
  · have := List.length_pos_iff.mpr hne
    simp only [List.length_append]
    omega
  · cases hcs : name.toList with
    | nil => exact absurd (String.toList_eq_nil_iff.mp hcs) hname
    | cons c cs => exact hchars c (hcs ▸ List.mem_cons_self)

theorem exists_names_of_header? {line : List Char} {name : String} (h : header? line = some name) :
    ∃ content ending, line = content ++ ending ∧ (ending = ['\n'] ∨ ending = ['\r', '\n']) ∧
      Names content name := by
  unfold header? at h
  split at h
  · rename_i cs
    dsimp only at h
    split at h
    · rename_i hcond
      obtain ⟨hlength, hfirst, hrest⟩ := hcond
      obtain rfl := Option.some.inj h
      generalize hbody : cs.dropWhile isBlank = body at *
      have hcs : cs.takeWhile isBlank ++ body = cs := hbody ▸ List.takeWhile_append_dropWhile
      have hnamed : body.takeWhile isNameChar ≠ [] := by
        cases body with
        | nil => cases hfirst
        | cons c body => simpa using hfirst
      refine ⟨'@' :: '@' :: (cs.takeWhile isBlank ++
          (String.ofList (body.takeWhile isNameChar)).toList ++
            (body.dropWhile isNameChar).takeWhile isBlank), _, ?_, hrest, _, _, rfl, ?_,
          fun _ => List.mem_takeWhile_imp, ?_, ?_, fun _ => List.mem_takeWhile_imp⟩
      · simp only [String.toList_ofList, List.cons_append, List.append_assoc,
          List.takeWhile_append_dropWhile, hcs]
      · intro hnil
        rw [hnil, List.nil_append] at hcs
        exact absurd hlength (hcs ▸ Nat.lt_irrefl _)
      · exact fun hnil => hnamed (by simpa using congrArg String.toList hnil)
      · rw [String.toList_ofList]
        exact fun _ => List.mem_takeWhile_imp
    · cases h
  · cases h

/-- A header has no line end in it. -/
theorem Names.getLast?_ne {content : List Char} {name : String} (h : Names content name) :
    content.getLast? ≠ some '\n' := by
  obtain ⟨blanks, trail, rfl, hblanks, hall, hname, hchars, htrail⟩ := h
  intro hlast
  have hmem := List.mem_of_getLast? hlast
  simp only [List.mem_cons, List.mem_append] at hmem
  rcases hmem with h | h | (h | h) | h
  · cases h
  · cases h
  · exact absurd (hall _ h) (by decide)
  · exact absurd (hchars _ h) (by decide)
  · exact absurd (htrail _ h) (by decide)

/-- Of the lines that end in a newline exactly the headers are taken for headers. -/
theorem header?_eq_some_iff {line : List Char} {name : String} (hline : line.getLast? = some '\n') :
    header? line = some name ↔ Heads line name := by
  constructor
  · intro h
    obtain ⟨content, ending, rfl, hending, hnames⟩ := exists_names_of_header? h
    exact ⟨content, ending, rfl, by simp [hending], hnames⟩
  · rintro ⟨content, ending, rfl, hending, hnames⟩
    simp only [List.mem_cons, List.not_mem_nil, or_false] at hending
    rcases hending with rfl | rfl | hending
    · rw [List.append_nil] at hline
      exact absurd hline hnames.getLast?_ne
    · rw [List.getLast?_append] at hline
      cases hline
    · exact header?_of_names hnames hending

/-- Nothing but a line that ends in a newline is taken for a header. -/
theorem getLast?_of_header? {line : List Char} {name : String} (h : header? line = some name) :
    line.getLast? = some '\n' := by
  obtain ⟨content, ending, rfl, rfl | rfl, -⟩ := exists_names_of_header? h
  all_goals rw [List.getLast?_append]; rfl

/-! ### Divisions -/

/-- A header line, the name in it, and the lines behind it. -/
structure Part where
  header : List Char
  name : String
  body : List (List Char)

/-- The text behind the header line. -/
def Part.text (p : Part) : String := String.ofList p.body.flatten

/-- The lines in front of the first header line, and the parts that begin with the header lines. -/
structure Division where
  preamble : List (List Char)
  parts : List Part

/-- The lines are those of the preamble and those of the parts, one after the other, and exactly the
headers of the parts are header lines. -/
structure Division.Of (d : Division) (lines : List (List Char)) : Prop where
  lines_eq : lines = d.preamble ++ d.parts.flatMap fun p => p.header :: p.body
  headers : ∀ p ∈ d.parts, Heads p.header p.name
  preamble : ∀ line ∈ d.preamble, ∀ name, ¬ Heads line name
  bodies : ∀ p ∈ d.parts, ∀ line ∈ p.body, ∀ name, ¬ Heads line name

/-- The text of the last part of a name. -/
def Division.text? (d : Division) (name : String) : Option String :=
  (d.parts.reverse.find? fun p => p.name == name).map Part.text

/-- The line is taken for a header exactly if it is one. -/
def Told (line : List Char) : Prop := ∀ name, header? line = some name ↔ Heads line name

theorem told_of_ends {line : List Char}
    (h : line.getLast? = some '\n' ∨ ∀ name, ¬ Heads line name) : Told line := by
  intro name
  rcases h with h | h
  · exact header?_eq_some_iff h
  · refine iff_of_false (fun hheader => ?_) (h name)
    exact h name ((header?_eq_some_iff (getLast?_of_header? hheader)).mp hheader)

theorem Told.name_unique {line : List Char} (h : Told line) {name name' : String}
    (hname : Heads line name) (hname' : Heads line name') : name = name' :=
  Option.some.inj (((h name).mpr hname).symm.trans ((h name').mpr hname'))

section

variable {line : List Char} {lines : List (List Char)} {d : Division}

theorem of_nil_iff : d.Of [] ↔ d = ⟨[], []⟩ := by
  obtain ⟨preamble, parts⟩ := d
  constructor
  · rintro ⟨hlines, -, -, -⟩
    obtain ⟨rfl, hparts⟩ := List.append_eq_nil_iff.mp hlines.symm
    cases parts with
    | nil => rfl
    | cons p parts => cases hparts
  · rintro ⟨⟩
    exact ⟨rfl, nofun, nofun, nofun⟩

/-- The first line belongs to the preamble, or it is a header and what was the preamble behind it is
its body. -/
theorem of_cons_iff : d.Of (line :: lines) ↔
    (∃ d' : Division, d'.Of lines ∧ (∀ name, ¬ Heads line name) ∧
      d = ⟨line :: d'.preamble, d'.parts⟩) ∨
    ∃ (d' : Division) (name : String), d'.Of lines ∧ Heads line name ∧
      d = ⟨[], ⟨line, name, d'.preamble⟩ :: d'.parts⟩ := by
  obtain ⟨preamble, parts⟩ := d
  constructor
  · rintro ⟨hlines, hheaders, hpreamble, hbodies⟩
    cases preamble with
    | cons first preamble =>
      obtain ⟨rfl, hlines⟩ := List.cons.inj hlines
      obtain ⟨hfirst, hpreamble⟩ := List.forall_mem_cons.mp hpreamble
      exact .inl ⟨⟨preamble, parts⟩, ⟨hlines, hheaders, hpreamble, hbodies⟩, hfirst, rfl⟩
    | nil =>
      cases parts with
      | nil => cases hlines
      | cons p parts =>
        rw [List.nil_append, List.flatMap_cons, List.cons_append] at hlines
        obtain ⟨rfl, hrest⟩ := List.cons.inj hlines
        obtain ⟨hheader, hheaders⟩ := List.forall_mem_cons.mp hheaders
        obtain ⟨hbody, hbodies⟩ := List.forall_mem_cons.mp hbodies
        exact .inr ⟨⟨p.body, parts⟩, p.name, ⟨hrest, hheaders, hbody, hbodies⟩, hheader, rfl⟩
  · rintro (⟨d', ⟨hlines, hheaders, hpreamble, hbodies⟩, hfirst, ⟨⟩⟩ |
      ⟨d', name, ⟨hlines, hheaders, hpreamble, hbodies⟩, hheader, ⟨⟩⟩)
    · exact ⟨congrArg (line :: ·) hlines, hheaders,
        List.forall_mem_cons.mpr ⟨hfirst, hpreamble⟩, hbodies⟩
    · exact ⟨congrArg (line :: ·) hlines, List.forall_mem_cons.mpr ⟨hheader, hheaders⟩, nofun,
        List.forall_mem_cons.mpr ⟨hpreamble, hbodies⟩⟩

/-- Lines are divided in one way. -/
theorem existsUnique_of (h : ∀ line ∈ lines, Told line) : ∃! d : Division, d.Of lines := by
  induction lines with
  | nil => exact ⟨⟨[], []⟩, of_nil_iff.mpr rfl, fun d => of_nil_iff.mp⟩
  | cons line lines ih =>
    obtain ⟨hline, hlines⟩ := List.forall_mem_cons.mp h
    obtain ⟨d, hd, hunique⟩ := ih hlines
    by_cases hheads : ∃ name, Heads line name
    · obtain ⟨name, hname⟩ := hheads
      refine ⟨_, of_cons_iff.mpr (.inr ⟨d, name, hd, hname, rfl⟩), fun d' hd' => ?_⟩
      rcases of_cons_iff.mp hd' with ⟨_, -, hplain, -⟩ | ⟨d'', name', hd'', hname', rfl⟩
      · exact absurd hname (hplain name)
      · rw [hunique d'' hd'', hline.name_unique hname hname']
    · refine ⟨_, of_cons_iff.mpr (.inl ⟨d, hd, not_exists.mp hheads, rfl⟩), fun d' hd' => ?_⟩
      rcases of_cons_iff.mp hd' with ⟨d'', hd'', -, rfl⟩ | ⟨_, name, -, hname, -⟩
      · rw [hunique d'' hd'']
      · exact absurd ⟨name, hname⟩ hheads

/-- What is made of lines is their division. -/
theorem sections_of (h : ∀ line ∈ lines, Told line) (hd : d.Of lines) :
    sections lines = (d.preamble.flatten, d.parts.map fun p => (p.name, p.text)) := by
  induction lines generalizing d with
  | nil =>
    rw [of_nil_iff.mp hd]
    rfl
  | cons line lines ih =>
    obtain ⟨hline, hlines⟩ := List.forall_mem_cons.mp h
    rcases of_cons_iff.mp hd with ⟨d', hd', hplain, rfl⟩ | ⟨d', name, hd', hname, rfl⟩
    · have hnone : header? line = none :=
        Option.eq_none_iff_forall_not_mem.mpr fun name hmem => hplain name ((hline name).mp hmem)
      rw [sections, ih hlines hd', hnone]
      rfl
    · rw [sections, ih hlines hd', (hline name).mpr hname]
      rfl

end

/-- **The templates of a text are its parts**, as long as its last line is not a header without a
newline: the lines of a text are divided in one way, their parts put together are the text, and of
the parts of one name the last is the template. -/
theorem templates_divided {σ : Type} {text : String}
    (hends : ∀ line ∈ Text.splitLines text.toList,
      line.getLast? = some '\n' ∨ ∀ name, ¬ Heads line name) :
    ∃ d : Division, d.Of (Text.splitLines text.toList) ∧
      (∀ d' : Division, d'.Of (Text.splitLines text.toList) → d' = d) ∧
      text.toList = d.preamble.flatten ++ d.parts.flatMap (fun p => p.header ++ p.body.flatten) ∧
      ∀ (w : σ) (name : String), Loader.table (templates text) w name =
        match d.text? name with
        | some body => .ok body
        | none => .error (.unknownTemplate name) := by
  have htold : ∀ line ∈ Text.splitLines text.toList, Told line :=
    fun line hline => told_of_ends (hends line hline)
  obtain ⟨d, hd, hunique⟩ := existsUnique_of htold
  refine ⟨d, hd, hunique, ?_, fun w name => ?_⟩
  · have hflatten := congrArg List.flatten hd.lines_eq
    rw [Text.flatten_splitLines, List.flatten_append] at hflatten
    rw [hflatten]
    congr 1
    induction d.parts with
    | nil => rfl
    | cons p parts ih => simp [ih]
  · unfold Loader.table Loader.entry templates
    have hfind : (Table.ofList (sections (Text.splitLines text.toList)).2).find? name =
        d.text? name := by
      rw [sections_of htold hd, Table.find?_ofList, ← List.map_reverse, List.find?_map,
        Option.map_map]
      rfl
    cases htext : d.text? name <;> rw [htext] at hfind <;> simp [hfind]

/-- A preamble, a carriage return, two headers next to each other, a name that comes twice, and a
last line without a newline. -/
theorem templates_divided_twice :
    let text := "x\n@@ a\r\nA\n@@ b.c \n@@ a\n@@b"
    (∀ line ∈ Text.splitLines text.toList,
        line.getLast? = some '\n' ∨ ∀ name, ¬ Heads line name) ∧
      ∃ d : Division, d.Of (Text.splitLines text.toList) ∧
        (∀ d' : Division, d'.Of (Text.splitLines text.toList) → d' = d) ∧
        text.toList = d.preamble.flatten ++ d.parts.flatMap (fun p => p.header ++ p.body.flatten) ∧
        ∀ (w : Unit) (name : String), Loader.table (templates text) w name =
          match d.text? name with
          | some body => .ok body
          | none => .error (.unknownTemplate name) := by
  intro text
  have hends : ∀ line ∈ Text.splitLines text.toList,
      line.getLast? = some '\n' ∨ ∀ name, ¬ Heads line name := by
    have hlines : Text.splitLines text.toList = ["x\n".toList, "@@ a\r\n".toList, "A\n".toList,
        "@@ b.c \n".toList, "@@ a\n".toList, "@@b".toList] := by decide
    rw [hlines]
    simp only [List.forall_mem_cons]
    refine ⟨.inl rfl, .inl rfl, .inl rfl, .inl rfl, .inl rfl, .inr ?_, nofun⟩
    -- no blank stands behind the at signs
    rintro name ⟨content, ending, heq, -, blanks, trail, rfl, hne, hblanks, -⟩
    obtain ⟨c, blanks, rfl⟩ := List.exists_cons_of_ne_nil hne
    obtain rfl : 'b' = c := (List.cons.inj (List.cons.inj (List.cons.inj heq).2).2).1
    exact absurd (hblanks 'b' List.mem_cons_self) (by decide)
  exact ⟨hends, templates_divided hends⟩

/-- A header at the end of the text that lacks a newline is not taken for one. -/
theorem last_header_missed : ∃ d : Division, d.Of (Text.splitLines "@@ a".toList) ∧
    d.text? "a" = some "" ∧
    Loader.table (templates "@@ a") () "a" = .error (.unknownTemplate "a") := by
  refine ⟨⟨[], [⟨"@@ a".toList, "a", []⟩]⟩, ⟨rfl, ?_, nofun, ?_⟩, rfl, rfl⟩
  · rw [List.forall_mem_singleton]
    exact ⟨"@@ a".toList, [], rfl, by decide, [' '], [], rfl, by decide,
      List.forall_mem_singleton.mpr rfl, by decide, List.forall_mem_singleton.mpr rfl, nofun⟩
  · rw [List.forall_mem_singleton]
    exact nofun

end Inline

end Mustache
