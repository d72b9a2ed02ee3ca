import Mustache.Error
import Mustache.Text.Search
import Mustache.Token

/-!
From source to tokens. The source is cut into texts and tags first; then each line that holds
tags but neither other text nor an interpolation gives up its white space. A tag's kind is the
character right after the opening delimiter, so a name may begin with a sigil when a blank stands
in front of it.
-/

namespace Mustache.Token

/-! ### Cutting -/

/-- A place between two characters of a source. -/
structure Place where
  offset : Nat
  line : Nat
deriving DecidableEq, Repr

/-- What is wrong with a source, and the tag it is wrong with. -/
structure Fault where
  defect : Malformed
  place : Place
deriving DecidableEq, Repr

/-- The place behind some text. -/
def Place.advance (p : Place) (cs : List Char) : Place :=
  ⟨p.offset + Text.byteLength cs, p.line + Text.newlines cs⟩

/-- A delimiter stands here. The empty string stands nowhere. -/
def standsAt (delimiter cs : List Char) : Bool :=
  !delimiter.isEmpty && delimiter.isPrefixOf cs

/-- The text in front of the next tag, and no further than the end of the line; then the rest. -/
def takeText (opening : List Char) : List Char → List Char × List Char
  | [] => ([], [])
  | c :: cs =>
    if standsAt opening (c :: cs) then ([], c :: cs)
    else if c = '\n' then ([c], cs)
    else
      let (text, rest) := takeText opening cs
      (c :: text, rest)

theorem takeText_append (opening cs : List Char) :
    (takeText opening cs).1 ++ (takeText opening cs).2 = cs := by
  induction cs with
  | nil => rfl
  | cons c cs ih =>
    unfold takeText
    split
    · rfl
    · split <;> simp [ih]

/-- The kind of tag that begins here, how it is marked, and the rest. A tag marked by a brace
wants one more brace at its end. -/
structure Sigil where
  kind : TokenKind
  mark : List Char
  braced : Bool
deriving DecidableEq, Repr

def sigilOf : List Char → Sigil
  | '>' :: '*' :: _ => ⟨.dynamicPartial, ['>', '*'], false⟩
  | c :: _ =>
    match TokenKind.ofSigil? c with
    | some kind => ⟨kind, [c], c = '{'⟩
    | none => ⟨.escaped, [], false⟩
  | [] => ⟨.escaped, [], false⟩

/-- How a tag ends: a delimiter change has an equals sign in front of its closing delimiter. -/
def closingOf (d : Delimiters) (kind : TokenKind) : List Char :=
  if kind = .delimiters then '=' :: d.closing.toList else d.closing.toList

/-- A tag of a source: its token, the characters it covers, those after it, the place where they
begin and the delimiters in force from there on. -/
structure Tag where
  token : Token
  lexeme : List Char
  rest : List Char
  next : Place
  delimiters : Delimiters

/-- The first characters of a tag that has no end. -/
def beginning (cs : List Char) : String := String.ofList (Text.trimEnd (cs.take 20))

/-- What a tag says: its value, the delimiters in force after it, and the brace behind its closing
delimiter if that belongs to the tag, with what follows. -/
structure Content where
  value : List Char
  delimiters : Delimiters
  brace : List Char
  rest : List Char

/-- The content of a tag marked by a brace. It is closed by a brace at the end of its body or by
one behind the closing delimiter. -/
def bracedContent (d : Delimiters) (name after : List Char) : Except Malformed Content :=
  match name.reverse, after with
  | '}' :: r, _ => .ok ⟨Text.trimEnd r.reverse, d, [], after⟩
  | _, '}' :: rest => .ok ⟨name, d, ['}'], rest⟩
  | _, _ => .error (.unevenBraces (String.ofList name))

/-- What a tag of some kind makes of its body. -/
def contentOf (d : Delimiters) (sigil : Sigil) (body after : List Char) :
    Except Malformed Content :=
  if sigil.braced then bracedContent d (Text.trim body) after
  else match sigil.kind with
    | .comment => .ok ⟨body, d, [], after⟩
    | .delimiters =>
      match Delimiters.parse? body with
      | some next => .ok ⟨Text.trim body, next, [], after⟩
      | none => .error (.badDelimiters (String.ofList body))
    | _ => .ok ⟨Text.trim body, d, [], after⟩

/-- Reads the tag that begins at `p` with `start`, its opening delimiter and sigil, and goes on
with `inner`. The newlines that count are those of its body. -/
def readFrom (d : Delimiters) (p : Place) (sigil : Sigil) (start inner : List Char) :
    Except Fault Tag :=
  match Text.cutAt? (closingOf d sigil.kind) inner with
  | none => .error ⟨.unclosedTag (beginning (start ++ inner)), p⟩
  | some (body, after) =>
    match contentOf d sigil body after with
    | .error defect => .error ⟨defect, p⟩
    | .ok content =>
      let lexeme := start ++ body ++ closingOf d sigil.kind ++ content.brace
      let stop := p.offset + Text.byteLength lexeme
      .ok
        { token :=
            { kind := sigil.kind, value := String.ofList content.value, line := p.line,
              start := p.offset, stop, delimiters := d, indent := none }
          lexeme, rest := content.rest, next := ⟨stop, p.line + Text.newlines body⟩,
          delimiters := content.delimiters }

/-- Reads the tag whose opening delimiter stands here. -/
def readTag (d : Delimiters) (p : Place) (cs : List Char) : Except Fault Tag :=
  let inner := cs.drop d.opening.toList.length
  let sigil := sigilOf inner
  readFrom d p sigil (d.opening.toList ++ sigil.mark) (inner.drop sigil.mark.length)

theorem mark_isPrefix (cs : List Char) : (sigilOf cs).mark <+: cs := by
  unfold sigilOf
  split
  · simp
  · split <;> simp
  · simp

theorem contentOf_append {d : Delimiters} {sigil : Sigil} {body after : List Char} {c : Content}
    (h : contentOf d sigil body after = .ok c) : c.brace ++ c.rest = after := by
  unfold contentOf bracedContent at h
  repeat' split at h
  all_goals simp_all <;> grind

theorem readFrom_append {d : Delimiters} {p : Place} {sigil : Sigil} {start inner : List Char}
    {tag : Tag} (h : readFrom d p sigil start inner = .ok tag) :
    tag.lexeme ++ tag.rest = start ++ inner ∧ start <+: tag.lexeme := by
  unfold readFrom at h
  split at h
  · simp at h
  · rename_i body after hcut
    split at h
    · simp at h
    · rename_i content hcontent
      simp only [Except.ok.injEq] at h
      subst h
      simp [← Text.cutAt?_append hcut, ← contentOf_append hcontent]

/-- A tag covers its lexeme, which begins with the opening delimiter. -/
theorem readTag_append {d : Delimiters} {p : Place} {cs : List Char} {tag : Tag}
    (hs : d.opening.toList <+: cs) (h : readTag d p cs = .ok tag) :
    tag.lexeme ++ tag.rest = cs ∧ d.opening.toList <+: tag.lexeme := by
  obtain ⟨inner, rfl⟩ := hs
  unfold readTag at h
  simp only [List.drop_left] at h
  obtain ⟨happ, hpre⟩ := readFrom_append h
  refine ⟨?_, (List.prefix_append _ _).trans hpre⟩
  rw [happ, List.append_assoc, List.prefix_iff_eq_append.mp (mark_isPrefix inner)]

/-- A piece of a source in front of the rest. -/
inductive Piece
  | text (chars rest : List Char)
  | tag (t : Tag)

/-- The text or tag at the head of a source that is not empty. -/
def nextPiece (d : Delimiters) (p : Place) (cs : List Char) : Except Fault Piece :=
  match takeText d.opening.toList cs with
  | ([], _) => (readTag d p cs).map .tag
  | (text, rest) => .ok (.text text rest)

/-- What a piece leaves of the source. -/
def Piece.rest : Piece → List Char
  | text _ rest => rest
  | tag t => t.rest

theorem takeText_eq_nil {opening cs : List Char} (hcs : cs ≠ [])
    (h : (takeText opening cs).1 = []) : standsAt opening cs = true := by
  cases cs with
  | nil => exact absurd rfl hcs
  | cons c cs =>
    unfold takeText at h
    split at h
    · assumption
    · split at h <;> simp at h

theorem rest_lt_of_readTag {d : Delimiters} {p : Place} {cs : List Char} {tag : Tag}
    (hs : standsAt d.opening.toList cs = true) (h : readTag d p cs = .ok tag) :
    tag.rest.length < cs.length := by
  simp only [standsAt, Bool.and_eq_true, Bool.not_eq_true', List.isEmpty_eq_false_iff] at hs
  obtain ⟨happ, hpre⟩ := readTag_append (List.isPrefixOf_iff_prefix.mp hs.2) h
  have := List.length_pos_iff.mpr hs.1
  have := hpre.length_le
  simp only [← happ, List.length_append]
  omega

theorem rest_lt_of_nextPiece {d : Delimiters} {p : Place} {cs : List Char} {piece : Piece}
    (hcs : cs ≠ []) (h : nextPiece d p cs = .ok piece) : piece.rest.length < cs.length := by
  unfold nextPiece at h
  split at h
  · rename_i r ht
    have hs : standsAt d.opening.toList cs = true := takeText_eq_nil hcs (by rw [ht])
    cases hr : readTag d p cs with
    | error e => rw [hr] at h; simp [Except.map] at h
    | ok t =>
      rw [hr] at h
      simp only [Except.map, Except.ok.injEq] at h
      subst h
      exact rest_lt_of_readTag hs hr
  · rename_i text rest hne ht
    simp only [Except.ok.injEq] at h
    subst h
    have := congrArg List.length (takeText_append d.opening.toList cs)
    rw [ht] at this
    have : text.length ≠ 0 := fun h0 => hne (List.length_eq_zero_iff.mp h0)
    simp only [List.length_append, Piece.rest] at *
    omega

/-- The texts and tags of a source, in order. -/
def pieces (d : Delimiters) (p : Place) (cs : List Char) : Except Fault (List Token) :=
  match cs with
  | [] => .ok []
  | c :: cs =>
    match _h : nextPiece d p (c :: cs) with
    | .error e => .error e
    | .ok (.text text more) =>
      let next := p.advance text
      let token : Token :=
        { kind := .text, value := String.ofList text, line := p.line, start := p.offset,
          stop := next.offset, delimiters := d, indent := none }
      (pieces d next more).map (token :: ·)
    | .ok (.tag t) => (pieces t.delimiters t.next t.rest).map (t.token :: ·)
termination_by cs.length
decreasing_by
  · exact rest_lt_of_nextPiece (by simp) _h
  · exact rest_lt_of_nextPiece (by simp) _h

/-! ### Lines of tags -/

/-- The tokens line by line. -/
def splitLines : List Token → List (List Token)
  | [] => []
  | t :: ts =>
    if t.endsLine then [t] :: splitLines ts
    else match splitLines ts with
      | [] => [[t]]
      | l :: ls => (t :: l) :: ls

/-- A line that holds tags, of which none prints in its own place, and otherwise only white
space. -/
def standsAlone (line : List Token) : Bool :=
  line.any (fun t => !t.isText) &&
    line.all fun t => if t.isText then t.isBlankText else t.kind.canStandAlone

/-- Drops the texts of a line. A tag that takes an indent keeps the text since the tag before. -/
def dropTexts (indent : String) : List Token → List Token
  | [] => []
  | t :: ts =>
    if t.isText then dropTexts (indent ++ t.value) ts
    else if t.kind.takesIndent then { t with indent := some indent } :: dropTexts "" ts
    else t :: dropTexts "" ts

def settleLine (line : List Token) : List Token :=
  if standsAlone line then dropTexts "" line else line

def settle (ts : List Token) : List Token := (splitLines ts).flatMap settleLine

/-! ### Scanning -/

def Fault.toError (source : String) (f : Fault) : Error :=
  (Error.ofDefect f.defect f.place.line).inSource source f.place.offset

/-- The tokens of a source that starts with the delimiters `d`. -/
def scan (d : Delimiters) (source : String) : Except Error (List Token) :=
  match pieces d ⟨0, 1⟩ source.toList with
  | .ok ts => .ok (settle ts)
  | .error f => .error (f.toError source)

end Mustache.Token
