import Mustache.Proofs.Token.Tiling

/-!
Scanning from another place. What a source falls into hangs on the source alone; the place where it
begins only moves its tokens and its faults, some bytes on and some lines down. Main statements:
`pieces_moved` and `settle_moved`.
-/

namespace Mustache.Token

variable (n m : Nat)

/-! ### Things moved by `n` bytes and `m` lines -/

def Place.moved (p : Place) : Place := ⟨p.offset + n, p.line + m⟩

def Fault.moved (f : Fault) : Fault := { f with place := f.place.moved n m }

def moved (t : Token) : Token :=
  { t with line := t.line + m, start := t.start + n, stop := t.stop + n }

def Tag.moved (t : Tag) : Tag :=
  { t with token := t.token.moved n m, next := t.next.moved n m }

def Piece.moved : Piece → Piece
  | text chars rest => text chars rest
  | tag t => tag (t.moved n m)

@[simp] theorem kind_moved (t : Token) : (t.moved n m).kind = t.kind := rfl

@[simp] theorem value_moved (t : Token) : (t.moved n m).value = t.value := rfl

@[simp] theorem isText_moved (t : Token) : (t.moved n m).isText = t.isText := rfl

@[simp] theorem isBlankText_moved (t : Token) : (t.moved n m).isBlankText = t.isBlankText := rfl

@[simp] theorem endsLine_moved (t : Token) : (t.moved n m).endsLine = t.endsLine := rfl

theorem Place.advance_moved (p : Place) (cs : List Char) :
    (p.moved n m).advance cs = (p.advance cs).moved n m := by
  simp only [Place.moved, Place.advance, Nat.add_right_comm]

/-! ### Pieces -/

theorem readFrom_moved (d : Delimiters) (p : Place) (sigil : Sigil) (start inner : List Char) :
    readFrom d (p.moved n m) sigil start inner =
      ((readFrom d p sigil start inner).map (Tag.moved n m)).mapError (Fault.moved n m) := by
  unfold readFrom
  cases Text.cutAt? (closingOf d sigil.kind) inner with
  | none => rfl
  | some cut =>
    obtain ⟨body, after⟩ := cut
    cases hcontent : contentOf d sigil body after with
    | error defect =>
      simp only [hcontent]
      rfl
    | ok content =>
      simp only [hcontent]
      show Except.ok _ = Except.ok (Tag.moved n m _)
      simp [Tag.moved, moved, Place.moved, Nat.add_right_comm]

theorem readTag_moved (d : Delimiters) (p : Place) (cs : List Char) :
    readTag d (p.moved n m) cs =
      ((readTag d p cs).map (Tag.moved n m)).mapError (Fault.moved n m) :=
  readFrom_moved n m d p _ _ _

theorem nextPiece_moved (d : Delimiters) (p : Place) (cs : List Char) :
    nextPiece d (p.moved n m) cs =
      ((nextPiece d p cs).map (Piece.moved n m)).mapError (Fault.moved n m) := by
  unfold nextPiece
  split
  · rw [readTag_moved]
    cases readTag d p cs <;> rfl
  · rfl

/-- **A source that begins elsewhere has the same pieces, moved.** -/
theorem pieces_moved (d : Delimiters) (p : Place) (cs : List Char) :
    pieces d (p.moved n m) cs =
      ((pieces d p cs).map (List.map (moved n m))).mapError (Fault.moved n m) := by
  have hcons : ∀ (t : Token) (rest : Except Fault (List Token)),
      ((rest.map (List.map (moved n m))).mapError (Fault.moved n m)).map (t.moved n m :: ·) =
        ((rest.map (t :: ·)).map (List.map (moved n m))).mapError (Fault.moved n m) := by
    intro t rest
    cases rest <;> rfl
  fun_induction pieces d p cs with
  | case1 =>
    rw [pieces]
    rfl
  | case2 d p c cs f hpiece =>
    rw [pieces_cons, nextPiece_moved, hpiece]
    rfl
  | case3 d p c cs text more hpiece next token ih =>
    rw [pieces_cons, nextPiece_moved, hpiece]
    show (pieces d ((p.moved n m).advance text) more).map _ = _
    rw [Place.advance_moved, ih, ← hcons]
    simp [token, next, moved, Place.moved, Place.advance, Nat.add_right_comm]
  | case4 d p c cs tag hpiece ih =>
    rw [pieces_cons, nextPiece_moved, hpiece]
    show (pieces tag.delimiters (tag.next.moved n m) tag.rest).map _ = _
    rw [ih, ← hcons]
    rfl

/-! ### Lines -/

/-- A change of where tokens stand, of which neither their lines nor what becomes of these take
notice. -/
structure Relocates (f : Token → Token) : Prop where
  kind_eq : ∀ t, (f t).kind = t.kind
  value_eq : ∀ t, (f t).value = t.value
  indent_eq : ∀ t i, f { t with indent := i } = { f t with indent := i }

theorem relocates_moved : Relocates (moved n m) := ⟨fun _ => rfl, fun _ => rfl, fun _ _ => rfl⟩

namespace Relocates

variable {f : Token → Token} (h : Relocates f)

include h

theorem isText_eq (t : Token) : (f t).isText = t.isText := by rw [isText, isText, h.kind_eq]

theorem isBlankText_eq (t : Token) : (f t).isBlankText = t.isBlankText := by
  rw [isBlankText, isBlankText, h.isText_eq, h.value_eq]

theorem endsLine_eq (t : Token) : (f t).endsLine = t.endsLine := by
  rw [endsLine, endsLine, h.isText_eq, h.value_eq]

theorem splitLines_map (ts : List Token) :
    splitLines (ts.map f) = (splitLines ts).map (List.map f) := by
  induction ts with
  | nil => rfl
  | cons t ts ih =>
    simp only [List.map_cons, splitLines, h.endsLine_eq, ih]
    split
    · rfl
    · cases splitLines ts <;> rfl

theorem standsAlone_map (line : List Token) : standsAlone (line.map f) = standsAlone line := by
  simp only [standsAlone, List.any_map, List.all_map, Function.comp_def, h.isText_eq,
    h.isBlankText_eq, h.kind_eq]

theorem dropTexts_map (indent : String) (ts : List Token) :
    dropTexts indent (ts.map f) = (dropTexts indent ts).map f := by
  induction ts generalizing indent with
  | nil => rfl
  | cons t ts ih =>
    rw [List.map_cons, dropTexts, dropTexts, ← h.indent_eq]
    simp only [h.isText_eq, h.value_eq, h.kind_eq, ih]
    split
    · rfl
    · split <;> rfl

theorem settleLine_map (line : List Token) :
    settleLine (line.map f) = (settleLine line).map f := by
  simp only [settleLine, h.standsAlone_map, h.dropTexts_map]
  split <;> rfl

theorem settle_map (ts : List Token) : settle (ts.map f) = (settle ts).map f := by
  simp only [settle, h.splitLines_map, List.flatMap_map, List.map_flatMap, h.settleLine_map]

end Relocates

theorem splitLines_moved (ts : List Token) :
    splitLines (ts.map (moved n m)) = (splitLines ts).map (List.map (moved n m)) :=
  (relocates_moved n m).splitLines_map ts

theorem dropTexts_moved (indent : String) (ts : List Token) :
    dropTexts indent (ts.map (moved n m)) = (dropTexts indent ts).map (moved n m) :=
  (relocates_moved n m).dropTexts_map indent ts

theorem settleLine_moved (line : List Token) :
    settleLine (line.map (moved n m)) = (settleLine line).map (moved n m) :=
  (relocates_moved n m).settleLine_map line

theorem settle_moved (ts : List Token) :
    settle (ts.map (moved n m)) = (settle ts).map (moved n m) :=
  (relocates_moved n m).settle_map ts

end Mustache.Token
