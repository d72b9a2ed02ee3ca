import Mathlib.Logic.Relation
import Mustache.Proofs.Text.Slice
import Mustache.Proofs.Token.OneLine
import Mustache.Proofs.Token.Placed

/-!
The scanner as a loop over byte positions. It is in one of three modes, in text, behind an opening
delimiter or within a tag, it cuts the source at offsets, where a cut may fall inside a character or
past the end, and it settles a line when it has come to its end. Scanning by pieces gives what the
loop gives, and so the loop is over in time and never cuts where it must not. Main statement:
`ends_of_ne_nil`.
-/

namespace Mustache

open Text (byteLength)

namespace Token

/-! ### The loop -/

inductive Mode
  | text
  /-- Behind an opening delimiter. -/
  | tagType
  | tag
deriving DecidableEq, Repr

/-- What the loop keeps: where it is, the delimiters in force, the line, where the text and the tag
began that it is in, and the tokens of this line and of those before. -/
structure Loop where
  pos : Nat
  mode : Mode
  delimiters : Delimiters
  line : Nat
  textStart : Nat
  tagStart : Nat
  tagLine : Nat
  kind : TokenKind
  triple : Bool
  lineTokens : List Token
  tokens : List Token

namespace Loop

def start (d : Delimiters) : Loop where
  pos := 0
  mode := .text
  delimiters := d
  line := 1
  textStart := 0
  tagStart := 0
  tagLine := 1
  kind := .escaped
  triple := false
  lineTokens := []
  tokens := []

/-- The text from a byte on; `none` inside a character or past the end. -/
def from? (source : List Char) (pos : Nat) : Option (List Char) :=
  (Text.splitAtByte? pos source).map Prod.snd

/-- A star stands behind the sigil of a partial, which is looked at for partials alone. -/
def isStarred? (kind : TokenKind) (rest : List Char) : Option Bool :=
  if kind = .partialTag then (·.head? == some '*') <$> from? rest 1 else some false

section

variable (source : List Char) (q : Loop)

/-- Makes a token of the text up to `stop`, if there is any. -/
def flushText (stop : Nat) : Option Loop :=
  if q.textStart < stop then do
    let text ← Text.sliceBytes? q.textStart stop source
    let token : Token :=
      { kind := .text, value := String.ofList text, line := q.line, start := q.textStart, stop,
        delimiters := q.delimiters, indent := none }
    return { q with lineTokens := q.lineTokens ++ [token], textStart := stop }
  else return { q with textStart := stop }

def endLine : Loop := { q with tokens := q.tokens ++ settleLine q.lineTokens, lineTokens := [] }

def stepText : Option Loop := do
  let rest ← from? source q.pos
  if q.delimiters.opening.toList.isPrefixOf rest then
    let flushed ← q.flushText source q.pos
    return { flushed with
      tagStart := q.pos, tagLine := q.line, mode := .tagType,
      pos := q.pos + byteLength q.delimiters.opening.toList }
  else match rest with
    | [] => return { q with pos := byteLength source }
    | c :: _ =>
      let next := q.pos + c.utf8Size
      if c = '\n' then
        let flushed ← q.flushText source next
        return { flushed.endLine with line := q.line + 1, pos := next }
      else return { q with pos := next }

def stepTagType : Option Loop := do
  let rest ← from? source q.pos
  match rest.head?.bind TokenKind.ofSigil? with
  | none => return { q with mode := .tag, triple := false, kind := .escaped }
  | some kind =>
    let triple := rest.head? == some '\x7b'
    if ← isStarred? kind rest then
      return { q with mode := .tag, triple, kind := .dynamicPartial, pos := q.pos + 2 }
    else return { q with mode := .tag, triple, kind, pos := q.pos + 1 }

/-- The tag that the loop is in has no end. -/
def unclosed : Option Fault := do
  let tail ← from? source q.tagStart
  return ⟨.unclosedTag (beginning tail), ⟨q.tagStart, q.tagLine⟩⟩

def stepTag : Option (Except Fault Loop) := do
  let closing := closingOf q.delimiters q.kind
  match Text.cutAt? closing (← from? source q.pos) with
  | none => return .error (← q.unclosed source)
  | some (found, _) =>
    let bodyEnd := q.pos + byteLength found
    let body ← Text.sliceBytes? q.pos bodyEnd source
    let after ← from? source (bodyEnd + byteLength closing)
    match contentOf q.delimiters ⟨q.kind, [], q.triple⟩ body after with
    | .error defect => return .error ⟨defect, ⟨q.tagStart, q.tagLine⟩⟩
    | .ok content =>
      let stop := bodyEnd + byteLength closing + byteLength content.brace
      let token : Token :=
        { kind := q.kind, value := String.ofList content.value, line := q.tagLine,
          start := q.tagStart, stop, delimiters := q.delimiters, indent := none }
      return .ok { q with
        pos := stop, mode := .text, delimiters := content.delimiters,
        line := q.line + Text.newlines body, textStart := stop,
        lineTokens := q.lineTokens ++ [token] }

/-- One turn of the loop; `none` where it cuts the source outside of it or inside a character. -/
def step : Option (Except Fault Loop) :=
  match q.mode with
  | .text => .ok <$> q.stepText source
  | .tagType => .ok <$> q.stepTagType source
  | .tag => q.stepTag source

/-- What comes behind the loop. -/
def finish : Option (Except Fault (List Token)) :=
  match q.mode with
  | .text => do return .ok (← q.flushText source (byteLength source)).endLine.tokens
  | _ => .error <$> q.unclosed source

end

/-- Goes on to the end of the source, in `n` turns at most; `none` if it is not there then, or if it
cuts the source where it must not. -/
def run (source : List Char) : Nat → Loop → Option (Except Fault (List Token))
  | n, q =>
    if q.pos < byteLength source then
      match n with
      | 0 => none
      | n + 1 =>
        match q.step source with
        | none => none
        | some (.error f) => some (.error f)
        | some (.ok q) => run source n q
    else q.finish source

/-- Another turn, from one state to the next. -/
def Next (source : List Char) (q q' : Loop) : Prop :=
  q.pos < byteLength source ∧ q.step source = some (.ok q')

/-- The loop comes to the state. -/
def Reaches (d : Delimiters) (source : List Char) : Loop → Prop :=
  Relation.ReflTransGen (Next source) (start d)

/-! ### Where the loop stands -/

/-- What the scan gives in the end when these tokens are still to come. -/
def collect (q : Loop) (ts : List Token) : List Token := q.tokens ++ settle (q.lineTokens ++ ts)

/-- What the scan gives in the end when it goes on behind the tag. -/
def goOn (q : Loop) (tag : Tag) : Except Fault (List Token) :=
  (pieces tag.delimiters tag.next tag.rest).map fun ts => q.collect (tag.token :: ts)

/-- Where in the source the loop stands, and what the scan gives in the end. -/
inductive Stands (source : List Char) (q : Loop) : Except Fault (List Token) → Prop
  | text {done pend rest : List Char} (hmode : q.mode = .text)
      (hsource : source = done ++ (pend ++ rest)) (hstart : q.textStart = byteLength done)
      (hpos : q.pos = byteLength done + byteLength pend) (hline : '\n' ∉ pend)
      (htake : takeText q.delimiters.opening.toList (pend ++ rest) =
        (pend ++ (takeText q.delimiters.opening.toList rest).1,
          (takeText q.delimiters.opening.toList rest).2)) :
      Stands source q ((pieces q.delimiters ⟨q.textStart, q.line⟩ (pend ++ rest)).map q.collect)
  | tagType {done rest : List Char} (hmode : q.mode = .tagType)
      (hsource : source = done ++ (q.delimiters.opening.toList ++ rest))
      (hstart : q.tagStart = byteLength done)
      (hpos : q.pos = byteLength done + byteLength q.delimiters.opening.toList)
      (hline : q.tagLine = q.line) :
      Stands source q ((readTag q.delimiters ⟨q.tagStart, q.tagLine⟩
        (q.delimiters.opening.toList ++ rest)).bind q.goOn)
  | tag {done mark rest : List Char} (hmode : q.mode = .tag)
      (hsource : source = done ++ (q.delimiters.opening.toList ++ mark ++ rest))
      (hstart : q.tagStart = byteLength done)
      (hpos : q.pos = byteLength done + byteLength (q.delimiters.opening.toList ++ mark))
      (hline : q.tagLine = q.line) :
      Stands source q ((readFrom q.delimiters ⟨q.tagStart, q.tagLine⟩ ⟨q.kind, mark, q.triple⟩
        (q.delimiters.opening.toList ++ mark) rest).bind q.goOn)

/-- The delimiters in force are there, no tag is of the kind of a text, and no token of the line
ends it. -/
structure Fit (q : Loop) : Prop where
  opening : q.delimiters.opening.toList ≠ []
  closing : q.delimiters.closing.toList ≠ []
  kind : q.kind ≠ .text
  line : ∀ t ∈ q.lineTokens, t.endsLine = false

/-- A turn that is right: it fails as the whole scan does, or goes on to where the scan gives the
same, further on in the source or from the type of a tag to the tag itself. -/
inductive Turns (source : List Char) (q : Loop) (r : Except Fault (List Token)) :
    Option (Except Fault Loop) → Prop
  | fails {f : Fault} (h : r = .error f) : Turns source q r (some (.error f))
  | goes {q' : Loop} (hstands : Stands source q' r) (hfit : q'.Fit)
      (hmoves : q.pos < q'.pos ∨ q.mode = .tagType ∧ q'.mode = .tag ∧ q'.pos = q.pos)
      (hdelimiters : q'.delimiters = q.delimiters ∨ q'.delimiters.Writable) :
      Turns source q r (some (.ok q'))

theorem from?_append (before rest : List Char) :
    from? (before ++ rest) (byteLength before) = some rest := by
  rw [from?, Text.splitAtByte?_byteLength]
  rfl

section

variable {source : List Char} {q : Loop} {r : Except Fault (List Token)}

/-- A text between two offsets, taken up if there is any. -/
theorem flushText_eq {done text rest : List Char} (hsource : source = done ++ (text ++ rest))
    (hstart : q.textStart = byteLength done) :
    q.flushText source (byteLength done + byteLength text) = some
      { q with
        lineTokens := q.lineTokens ++
          if text = [] then [] else [ofText q.delimiters ⟨q.textStart, q.line⟩ text]
        textStart := byteLength done + byteLength text } := by
  unfold flushText
  by_cases htext : text = []
  · rw [htext, if_neg (by rw [hstart, byteLength]; omega), if_pos rfl, List.append_nil]
    rfl
  · have hpos := Text.byteLength_pos htext
    have hslice : Text.sliceBytes? q.textStart (byteLength done + byteLength text) source =
        some text := by
      rw [hstart, hsource, ← List.append_assoc]
      exact Text.sliceBytes?_append done text rest
    rw [if_pos (by omega), hslice, if_neg htext]
    change some _ = some _
    rw [ofText, hstart]
    rfl

/-- What is pending, as tokens. -/
theorem pieces_pending {d : Delimiters} (p : Place) {pend rest : List Char} (hline : '\n' ∉ pend)
    (htake : takeText d.opening.toList (pend ++ rest) = (pend, rest)) :
    pieces d p (pend ++ rest) =
      (pieces d ⟨p.offset + byteLength pend, p.line⟩ rest).map
        ((if pend = [] then [] else [ofText d p pend]) ++ ·) := by
  by_cases hpend : pend = []
  · subst hpend
    change pieces d p rest = (pieces d p rest).map id
    cases pieces d p rest <;> rfl
  · have hplace : p.advance pend = ⟨p.offset + byteLength pend, p.line⟩ := by
      rw [Place.advance, Text.newlines_eq_zero hline, Nat.add_zero]
    rw [pieces_of_takeText hpend htake, hplace, if_neg hpend]
    rfl

theorem standsAt_eq_isPrefixOf {opening : List Char} (h : opening ≠ []) (cs : List Char) :
    standsAt opening cs = opening.isPrefixOf cs := by
  rw [standsAt, List.isEmpty_eq_false_iff.mpr h, Bool.not_false, Bool.true_and]

theorem endsLine_ofText {d : Delimiters} {p : Place} {text : List Char} (h : '\n' ∉ text) :
    (ofText d p text).endsLine = false := by
  have hlast : text.getLast? ≠ some '\n' := fun hlast => h (List.mem_of_getLast? hlast)
  rw [endsLine, Bool.and_eq_false_iff]
  right
  change ((String.ofList text).toList.getLast? == some '\n') = false
  rw [String.toList_ofList]
  exact beq_eq_false_iff_ne.mpr hlast

theorem endsLine_ofText_newline {d : Delimiters} {p : Place} {text : List Char} :
    (ofText d p (text ++ ['\n'])).endsLine = true := by
  change (true && ((String.ofList (text ++ ['\n'])).toList.getLast? == some '\n')) = true
  rw [String.toList_ofList, List.getLast?_concat]
  rfl

/-- A line that has come to its end is settled by itself. -/
theorem settle_line {line : List Token} {t : Token} (hline : ∀ u ∈ line, u.endsLine = false)
    (ht : t.endsLine = true) (ts : List Token) :
    settle (line ++ t :: ts) = settleLine (line ++ [t]) ++ settle ts := by
  have hclosed : Closed (line ++ [t]) := by
    intro u hu
    rw [List.getLast?_concat] at hu
    rwa [← Option.some.inj hu]
  have hsingle : splitLines (line ++ [t]) = [line ++ [t]] :=
    splitLines_of_dropLast (by simp) (by rwa [List.dropLast_concat])
  rw [List.append_cons, settle_append hclosed]
  congr 1
  rw [settle, hsingle, List.flatMap_singleton]

theorem step_opening {done pend rest : List Char} (hmode : q.mode = .text)
    (hsource : source = done ++ (pend ++ (q.delimiters.opening.toList ++ rest)))
    (hstart : q.textStart = byteLength done)
    (hpos : q.pos = byteLength done + byteLength pend) :
    q.step source = some (.ok
      { q with
        lineTokens := q.lineTokens ++
          if pend = [] then [] else [ofText q.delimiters ⟨q.textStart, q.line⟩ pend]
        textStart := q.pos, tagStart := q.pos, tagLine := q.line, mode := .tagType
        pos := q.pos + byteLength q.delimiters.opening.toList }) := by
  have hrest : from? source q.pos = some (q.delimiters.opening.toList ++ rest) := by
    rw [hpos, hsource, ← List.append_assoc, ← Text.byteLength_append]
    exact from?_append _ _
  have hprefix : q.delimiters.opening.toList.isPrefixOf (q.delimiters.opening.toList ++ rest) =
      true := List.isPrefixOf_iff_prefix.mpr (List.prefix_append _ _)
  have hflush := flushText_eq hsource hstart
  rw [← hpos] at hflush
  simp only [step, hmode, stepText, hrest, bind, Option.bind, hprefix, if_true, hflush]
  rfl

/-- In text, at an opening delimiter. -/
theorem turns_opening {done pend rest : List Char} (hfit : q.Fit) (hmode : q.mode = .text)
    (hsource : source = done ++ (pend ++ (q.delimiters.opening.toList ++ rest)))
    (hstart : q.textStart = byteLength done)
    (hpos : q.pos = byteLength done + byteLength pend) (hline : '\n' ∉ pend)
    (htake : takeText q.delimiters.opening.toList (pend ++ (q.delimiters.opening.toList ++ rest)) =
      (pend, q.delimiters.opening.toList ++ rest)) :
    Turns source q ((pieces q.delimiters ⟨q.textStart, q.line⟩
      (pend ++ (q.delimiters.opening.toList ++ rest))).map q.collect) (q.step source) := by
  have hopens : 0 < byteLength q.delimiters.opening.toList := Text.byteLength_pos hfit.opening
  have hresult : (pieces q.delimiters ⟨q.textStart, q.line⟩
      (pend ++ (q.delimiters.opening.toList ++ rest))).map q.collect =
      (readTag q.delimiters ⟨q.pos, q.line⟩ (q.delimiters.opening.toList ++ rest)).bind
        ({ q with lineTokens := q.lineTokens ++
            if pend = [] then [] else [ofText q.delimiters ⟨q.textStart, q.line⟩ pend] } :
          Loop).goOn := by
    rw [pieces_pending _ hline htake, pieces_of_readTag (standsAt_append hfit.opening rest),
      hpos, hstart]
    cases readTag q.delimiters _ (q.delimiters.opening.toList ++ rest) with
    | error f => rfl
    | ok tag =>
      simp only [Except.bind, goOn]
      cases pieces tag.delimiters tag.next tag.rest with
      | error f => rfl
      | ok ts => simp only [Except.map, collect, List.append_assoc]
  have hfront : source = (done ++ pend) ++ (q.delimiters.opening.toList ++ rest) := by
    rw [hsource, List.append_assoc]
  rw [step_opening hmode hsource hstart hpos, hresult]
  refine .goes (.tagType rfl hfront ?_ ?_ rfl) ⟨hfit.opening, hfit.closing, hfit.kind, ?_⟩
    (.inl (by simp only; omega)) (.inl rfl)
  · rw [Text.byteLength_append, hpos]
  · rw [Text.byteLength_append, hpos]
  · intro t ht
    rcases List.mem_append.mp ht with ht | ht
    · exact hfit.line t ht
    · split at ht
      · cases ht
      · rw [List.mem_singleton.mp ht]
        exact endsLine_ofText hline

/-- In text, at a character of it. -/
theorem turns_character {done pend cs : List Char} {c : Char} (hfit : q.Fit)
    (hmode : q.mode = .text) (hsource : source = done ++ (pend ++ c :: cs))
    (hstart : q.textStart = byteLength done)
    (hpos : q.pos = byteLength done + byteLength pend) (hline : '\n' ∉ pend)
    (htake : takeText q.delimiters.opening.toList (pend ++ c :: cs) =
      (pend ++ (takeText q.delimiters.opening.toList (c :: cs)).1,
        (takeText q.delimiters.opening.toList (c :: cs)).2))
    (hstands : q.delimiters.opening.toList.isPrefixOf (c :: cs) = false) :
    Turns source q ((pieces q.delimiters ⟨q.textStart, q.line⟩ (pend ++ c :: cs)).map q.collect)
      (q.step source) := by
  have hrest : from? source q.pos = some (c :: cs) := by
    rw [hpos, hsource, ← List.append_assoc, ← Text.byteLength_append]
    exact from?_append _ _
  have hmoves : q.pos < q.pos + c.utf8Size := Nat.lt_add_of_pos_right c.utf8Size_pos
  have hnot : standsAt q.delimiters.opening.toList (c :: cs) = false := by
    rw [standsAt_eq_isPrefixOf hfit.opening, hstands]
  have hfront : source = done ++ ((pend ++ [c]) ++ cs) := by
    rw [hsource, List.append_cons]
  have hnext : byteLength done + byteLength (pend ++ [c]) = q.pos + c.utf8Size := by
    rw [Text.byteLength_append, hpos, Text.byteLength_cons, Text.byteLength_nil]
    omega
  by_cases hc : c = '\n'
  · subst hc
    rw [takeText, if_neg (by rw [hnot]; decide), if_pos rfl] at htake
    have hflush := flushText_eq hfront hstart
    rw [hnext, if_neg (by simp)] at hflush
    let next : Loop := { q with
      mode := .text, tokens := q.tokens ++ settleLine (q.lineTokens ++
        [ofText q.delimiters ⟨q.textStart, q.line⟩ (pend ++ ['\n'])])
      lineTokens := [], textStart := q.pos + '\n'.utf8Size, line := q.line + 1
      pos := q.pos + '\n'.utf8Size }
    have hstep : q.step source = some (.ok next) := by
      simp only [step, hmode, stepText, hrest, bind, Option.bind, hstands, Bool.false_eq_true,
        if_false, if_true, hflush]
      rfl
    have hplace : Place.advance ⟨q.textStart, q.line⟩ (pend ++ ['\n']) =
        ⟨next.textStart, next.line⟩ := by
      rw [Place.advance, Text.newlines_append, Text.newlines_eq_zero hline, hstart, hnext]
      rfl
    have htoken : (ofText q.delimiters ⟨q.textStart, q.line⟩ (pend ++ ['\n'])).endsLine = true :=
      endsLine_ofText_newline
    have hresult : (pieces q.delimiters ⟨q.textStart, q.line⟩ (pend ++ '\n' :: cs)).map q.collect =
        (pieces next.delimiters ⟨next.textStart, next.line⟩ ([] ++ cs)).map next.collect := by
      rw [pieces_of_takeText (by simp) htake, hplace]
      change ((pieces q.delimiters ⟨next.textStart, next.line⟩ cs).map _).map _ =
        (pieces q.delimiters ⟨next.textStart, next.line⟩ cs).map _
      cases pieces q.delimiters ⟨next.textStart, next.line⟩ cs with
      | error f => rfl
      | ok ts =>
        have hsettle := settle_line hfit.line htoken ts
        simp only [Except.map, collect, next, List.nil_append, List.append_assoc, ← hsettle]
        rfl
    have hbehind : source = (done ++ (pend ++ ['\n'])) ++ ([] ++ cs) := by
      rw [hfront, List.append_assoc done]
      rfl
    have hplaced : q.pos + '\n'.utf8Size = byteLength (done ++ (pend ++ ['\n'])) := by
      rw [Text.byteLength_append, hnext]
    rw [hstep, hresult]
    exact .goes (.text rfl hbehind hplaced hplaced List.not_mem_nil rfl)
      ⟨hfit.opening, hfit.closing, hfit.kind, List.forall_mem_nil _⟩ (.inl hmoves) (.inl rfl)
  · rw [takeText, if_neg (by rw [hnot]; decide), if_neg hc] at htake
    have hstep : q.step source = some (.ok { q with pos := q.pos + c.utf8Size }) := by
      simp only [step, hmode, stepText, hrest, bind, Option.bind, hstands, Bool.false_eq_true,
        if_false, if_neg hc]
      rfl
    have hstands' : Stands source { q with pos := q.pos + c.utf8Size }
        ((pieces q.delimiters ⟨q.textStart, q.line⟩ (pend ++ [c] ++ cs)).map q.collect) := by
      refine .text hmode hfront hstart hnext.symm ?_ ?_
      · rw [List.mem_append, not_or]
        exact ⟨hline, fun hmem => hc (List.mem_singleton.mp hmem).symm⟩
      · rw [← List.append_cons, htake, List.append_cons]
    rw [hstep, List.append_cons]
    exact .goes hstands' ⟨hfit.opening, hfit.closing, hfit.kind, hfit.line⟩ (.inl hmoves) (.inl rfl)

/-- Every sigil is a single byte, and only one makes a partial. -/
theorem of_ofSigil? {c : Char} {kind : TokenKind} (h : TokenKind.ofSigil? c = some kind) :
    c.utf8Size = 1 ∧ (kind = .partialTag ↔ c = '>') := by
  unfold TokenKind.ofSigil? at h
  split at h <;> cases h <;> exact ⟨by decide, by decide⟩

theorem stepTagType_eq {rest : List Char} (hrest : from? source q.pos = some rest) :
    q.stepTagType source = some
      { q with
        mode := .tag, kind := (sigilOf rest).kind, triple := (sigilOf rest).braced
        pos := q.pos + byteLength (sigilOf rest).mark } := by
  unfold stepTagType
  rw [hrest]
  cases rest with
  | nil => rfl
  | cons c cs =>
    cases hkind : TokenKind.ofSigil? c with
    | none =>
      have hsigil : sigilOf (c :: cs) = ⟨.escaped, [], false⟩ := by
        have hc : c ≠ '>' := by
          rintro rfl
          cases hkind
        unfold sigilOf
        split
        · rename_i heq
          exact absurd (List.cons.inj heq).1 hc
        · rename_i heq
          rw [← (List.cons.inj heq).1, hkind]
        · rfl
      simp only [bind, Option.bind, List.head?_cons, hkind, hsigil]
      rfl
    | some kind =>
      obtain ⟨hsize, hpartial⟩ := of_ofSigil? hkind
      have hfrom : from? (c :: cs) 1 = some cs := by
        rw [← hsize]
        exact from?_append [c] cs
      by_cases hstarred : c = '>' ∧ cs.head? = some '*'
      · obtain ⟨rfl, hhead⟩ := hstarred
        obtain ⟨more, rfl⟩ := List.head?_eq_some_iff.mp hhead
        obtain rfl := Option.some.inj hkind
        simp only [bind, Option.bind, List.head?_cons, TokenKind.ofSigil?, isStarred?, if_true,
          hfrom]
        rfl
      · have hsigil : sigilOf (c :: cs) = ⟨kind, [c], c = '\x7b'⟩ := by
          unfold sigilOf
          split
          · rename_i heq
            obtain ⟨rfl, rfl⟩ := List.cons.inj heq
            exact absurd ⟨rfl, rfl⟩ hstarred
          · rename_i heq
            obtain ⟨rfl, rfl⟩ := List.cons.inj heq
            rw [hkind]
          · rename_i heq
            cases heq
        have hunstarred : isStarred? kind (c :: cs) = some false := by
          unfold isStarred?
          split
          · rename_i hpart
            rw [hfrom]
            exact congrArg some (beq_eq_false_iff_ne.mpr fun hhead =>
              hstarred ⟨hpartial.mp hpart, hhead⟩)
          · rfl
        simp only [bind, Option.bind, List.head?_cons, hkind, hunstarred, hsigil,
          Bool.false_eq_true, if_false]
        rw [Text.byteLength_cons, hsize, Text.byteLength_nil]
        have htriple : (some c == some '\x7b') = decide (c = '\x7b') := by
          rw [Option.some_beq_some]
          rfl
        rw [htriple]
        rfl

/-- Behind an opening delimiter. -/
theorem turns_tagType {done rest : List Char} (hfit : q.Fit) (hmode : q.mode = .tagType)
    (hsource : source = done ++ (q.delimiters.opening.toList ++ rest))
    (hstart : q.tagStart = byteLength done)
    (hpos : q.pos = byteLength done + byteLength q.delimiters.opening.toList)
    (hline : q.tagLine = q.line) :
    Turns source q ((readTag q.delimiters ⟨q.tagStart, q.tagLine⟩
      (q.delimiters.opening.toList ++ rest)).bind q.goOn) (q.step source) := by
  have hrest : from? source q.pos = some rest := by
    rw [hpos, hsource, ← List.append_assoc, ← Text.byteLength_append]
    exact from?_append _ _
  have hstep : q.step source = some (.ok
      { q with
        mode := .tag, kind := (sigilOf rest).kind, triple := (sigilOf rest).braced
        pos := q.pos + byteLength (sigilOf rest).mark }) := by
    rw [step, hmode]
    simp only [stepTagType_eq hrest]
    rfl
  have hresult : (readTag q.delimiters ⟨q.tagStart, q.tagLine⟩
      (q.delimiters.opening.toList ++ rest)).bind q.goOn =
      (readFrom q.delimiters ⟨q.tagStart, q.tagLine⟩ (sigilOf rest)
        (q.delimiters.opening.toList ++ (sigilOf rest).mark)
        (rest.drop (sigilOf rest).mark.length)).bind q.goOn := by
    rw [readTag, List.drop_left]
  have hmark := List.prefix_iff_eq_append.mp (mark_isPrefix rest)
  have hbehind : source = done ++ (q.delimiters.opening.toList ++ (sigilOf rest).mark ++
      rest.drop (sigilOf rest).mark.length) := by
    rw [List.append_assoc, hmark, hsource]
  have hbegins : q.pos + byteLength (sigilOf rest).mark =
      byteLength done + byteLength (q.delimiters.opening.toList ++ (sigilOf rest).mark) := by
    rw [Text.byteLength_append, hpos, Nat.add_assoc]
  rw [hstep, hresult]
  refine .goes (.tag rfl hbehind hstart hbegins hline)
    ⟨hfit.opening, hfit.closing, sigilOf_kind_ne_text rest, hfit.line⟩ ?_ (.inl rfl)
  by_cases hnone : (sigilOf rest).mark = []
  · exact .inr ⟨hmode, rfl, by rw [hnone]; rfl⟩
  · exact .inl (Nat.lt_add_of_pos_right (Text.byteLength_pos hnone))

theorem unclosed_eq {done tail : List Char} (hsource : source = done ++ tail)
    (hstart : q.tagStart = byteLength done) :
    q.unclosed source = some ⟨.unclosedTag (beginning tail), ⟨q.tagStart, q.tagLine⟩⟩ := by
  have htail : from? source q.tagStart = some tail := by
    rw [hsource, hstart]
    exact from?_append done tail
  rw [unclosed, htail]
  rfl

/-- The content of a tag does not hang on how it is marked, only on whether by a brace. -/
theorem contentOf_mark (d : Delimiters) (kind : TokenKind) (mark other : List Char) (braced : Bool)
    (body after : List Char) :
    contentOf d ⟨kind, mark, braced⟩ body after = contentOf d ⟨kind, other, braced⟩ body after := rfl

theorem closingOf_ne_nil {d : Delimiters} (h : d.closing.toList ≠ []) (kind : TokenKind) :
    closingOf d kind ≠ [] := by
  unfold closingOf
  split
  · exact List.cons_ne_nil _ _
  · exact h

/-- The delimiters behind a tag are those in front of it or those it names. -/
theorem delimiters_of_contentOf {d : Delimiters} {sigil : Sigil} {body after : List Char}
    {content : Content} (h : contentOf d sigil body after = .ok content) :
    content.delimiters = d ∨ content.delimiters.Writable := by
  unfold contentOf bracedContent at h
  repeat' split at h
  all_goals cases h
  all_goals first | exact .inl rfl | exact .inr ⟨_, ‹_›⟩

theorem cuts_tag {front body after rest : List Char} {d : Delimiters} {kind : TokenKind}
    (hsource : source = front ++ rest) (hpos : q.pos = byteLength front)
    (hcut : Text.cutAt? (closingOf d kind) rest = some (body, after)) :
    from? source q.pos = some rest ∧
      Text.sliceBytes? q.pos (q.pos + byteLength body) source = some body ∧
      from? source (q.pos + byteLength body + byteLength (closingOf d kind)) = some after := by
  have hfront : source = front ++ body ++ (closingOf d kind ++ after) := by
    rw [hsource, ← Text.cutAt?_append hcut]
    simp only [List.append_assoc]
  refine ⟨?_, ?_, ?_⟩
  · rw [hpos, hsource]
    exact from?_append front rest
  · rw [hpos, hfront]
    exact Text.sliceBytes?_append front body _
  · rw [hpos, hfront, ← List.append_assoc, ← Text.byteLength_append, ← Text.byteLength_append]
    exact from?_append _ after

theorem step_tag {front body after rest : List Char} {content : Content} (hmode : q.mode = .tag)
    (hsource : source = front ++ rest) (hpos : q.pos = byteLength front)
    (hcut : Text.cutAt? (closingOf q.delimiters q.kind) rest = some (body, after))
    (hcontent : contentOf q.delimiters ⟨q.kind, [], q.triple⟩ body after = .ok content) :
    let stop := q.pos + byteLength body + byteLength (closingOf q.delimiters q.kind) +
      byteLength content.brace
    let token : Token :=
      { kind := q.kind, value := String.ofList content.value, line := q.tagLine,
        start := q.tagStart, stop, delimiters := q.delimiters, indent := none }
    q.step source = some (.ok
      { q with
        pos := stop, mode := .text, delimiters := content.delimiters,
        line := q.line + Text.newlines body, textStart := stop,
        lineTokens := q.lineTokens ++ [token] }) := by
  obtain ⟨hrest, hbody, hafter⟩ := cuts_tag hsource hpos hcut
  rw [step, hmode]
  simp only [stepTag, hrest, bind, Option.bind, hcut, hbody, hafter, hcontent]
  rfl

/-- Within a tag. -/
theorem turns_tag {done mark rest : List Char} (hfit : q.Fit) (hmode : q.mode = .tag)
    (hsource : source = done ++ (q.delimiters.opening.toList ++ mark ++ rest))
    (hstart : q.tagStart = byteLength done)
    (hpos : q.pos = byteLength done + byteLength (q.delimiters.opening.toList ++ mark))
    (hline : q.tagLine = q.line) :
    Turns source q ((readFrom q.delimiters ⟨q.tagStart, q.tagLine⟩ ⟨q.kind, mark, q.triple⟩
      (q.delimiters.opening.toList ++ mark) rest).bind q.goOn) (q.step source) := by
  have hfront : source = (done ++ (q.delimiters.opening.toList ++ mark)) ++ rest := by
    rw [hsource, List.append_assoc done]
  have hbegins : q.pos = byteLength (done ++ (q.delimiters.opening.toList ++ mark)) := by
    rw [hpos, Text.byteLength_append done]
  rw [readFrom]
  cases hcut : Text.cutAt? (closingOf q.delimiters q.kind) rest with
  | none =>
    have hrest : from? source q.pos = some rest := by
      rw [hbegins, hfront]
      exact from?_append _ _
    have hstep : q.step source = some (.error ⟨.unclosedTag (beginning
        (q.delimiters.opening.toList ++ mark ++ rest)), ⟨q.tagStart, q.tagLine⟩⟩) := by
      rw [step, hmode]
      simp only [stepTag, hrest, bind, Option.bind, hcut, unclosed_eq hsource hstart]
      rfl
    rw [hstep]
    exact .fails rfl
  | some found =>
    obtain ⟨body, after⟩ := found
    cases hcontent : contentOf q.delimiters ⟨q.kind, mark, q.triple⟩ body after with
    | error defect =>
      obtain ⟨hrest, hbody, hafter⟩ := cuts_tag hfront hbegins hcut
      have hstep : q.step source = some (.error ⟨defect, ⟨q.tagStart, q.tagLine⟩⟩) := by
        rw [step, hmode]
        simp only [stepTag, hrest, bind, Option.bind, hcut, hbody, hafter,
          contentOf_mark _ _ [] mark, hcontent]
        rfl
      simp only [hstep, hcontent]
      exact .fails rfl
    | ok content =>
      have hstep := step_tag hmode hfront hbegins hcut hcontent
      let stop := q.pos + byteLength body + byteLength (closingOf q.delimiters q.kind) +
        byteLength content.brace
      let token : Token :=
        { kind := q.kind, value := String.ofList content.value, line := q.tagLine,
          start := q.tagStart, stop, delimiters := q.delimiters, indent := none }
      let next : Loop := { q with
        pos := stop, mode := .text, delimiters := content.delimiters,
        line := q.line + Text.newlines body, textStart := stop,
        lineTokens := q.lineTokens ++ [token] }
      have hstop : q.tagStart + byteLength (q.delimiters.opening.toList ++ mark ++ body ++
          closingOf q.delimiters q.kind ++ content.brace) = stop := by
        simp only [stop, hstart, hpos, Text.byteLength_append]
        omega
      have hbehind : source = (done ++ (q.delimiters.opening.toList ++ mark) ++ body ++
          closingOf q.delimiters q.kind ++ content.brace) ++ ([] ++ content.rest) := by
        rw [hfront, ← Text.cutAt?_append hcut, ← contentOf_append hcontent]
        simp only [List.append_assoc, List.nil_append]
      have hplaced : stop = byteLength (done ++ (q.delimiters.opening.toList ++ mark) ++ body ++
          closingOf q.delimiters q.kind ++ content.brace) := by
        simp only [stop, hpos, Text.byteLength_append]
      have hstands : Stands source next ((pieces content.delimiters ⟨stop, next.line⟩
          ([] ++ content.rest)).map next.collect) :=
        .text rfl hbehind hplaced hplaced List.not_mem_nil rfl
      have hmoves : q.pos < stop := by
        have hcloses := Text.byteLength_pos (closingOf_ne_nil hfit.closing q.kind)
        simp only [stop]
        omega
      have hkept := delimiters_of_contentOf hcontent
      have hresult : (pieces content.delimiters ⟨stop, next.line⟩ ([] ++ content.rest)).map
          next.collect = (pieces content.delimiters ⟨stop, q.tagLine + Text.newlines body⟩
            content.rest).map fun ts => q.collect (token :: ts) := by
        have hcollect : next.collect = fun ts => q.collect (token :: ts) := by
          funext ts
          simp only [collect, next, List.append_assoc, List.singleton_append]
        rw [hcollect, hline, List.nil_append]
      rw [hresult] at hstands
      simp only [hcontent, hstop, hstep]
      refine .goes hstands ⟨?_, ?_, hfit.kind, ?_⟩ (.inl hmoves) hkept
      · rcases hkept with hsame | hwritten
        · exact hsame ▸ hfit.opening
        · exact hwritten.halves.1.ne_nil
      · rcases hkept with hsame | hwritten
        · exact hsame ▸ hfit.closing
        · exact hwritten.halves.2.ne_nil
      · refine List.forall_mem_append.mpr ⟨hfit.line, List.forall_mem_singleton.mpr ?_⟩
        rw [endsLine, isText, decide_eq_false hfit.kind, Bool.false_and]

/-- **Every turn is right**, from wherever the loop may stand. -/
theorem turns_step (hfit : q.Fit) (hstands : Stands source q r) (hmore : q.pos < byteLength source) :
    Turns source q r (q.step source) := by
  cases hstands with
  | @text done pend rest hmode hsource hstart hpos hline htake =>
    cases rest with
    | nil =>
      rw [hpos, hsource, List.append_nil, Text.byteLength_append] at hmore
      exact absurd hmore (Nat.lt_irrefl _)
    | cons c cs =>
      cases hopens : q.delimiters.opening.toList.isPrefixOf (c :: cs) with
      | true =>
        obtain ⟨rest, hrest⟩ := List.isPrefixOf_iff_prefix.mp hopens
        have htakes : takeText q.delimiters.opening.toList (c :: cs) = ([], c :: cs) := by
          rw [takeText, if_pos ((standsAt_eq_isPrefixOf hfit.opening _).trans hopens)]
        rw [htakes, List.append_nil] at htake
        rw [← hrest] at hsource htake ⊢
        exact turns_opening hfit hmode hsource hstart hpos hline htake
      | false => exact turns_character hfit hmode hsource hstart hpos hline htake hopens
  | tagType hmode hsource hstart hpos hline =>
    exact turns_tagType hfit hmode hsource hstart hpos hline
  | tag hmode hsource hstart hpos hline => exact turns_tag hfit hmode hsource hstart hpos hline

theorem settle_of_open {line : List Token} (h : ∀ t ∈ line, t.endsLine = false) :
    settle line = settleLine line := by
  by_cases hline : line = []
  · subst hline
    rfl
  · rw [settle, splitLines_of_dropLast hline fun t ht => h t (List.dropLast_subset line ht),
      List.flatMap_singleton]

theorem eq_nil_of_byteLength_le {a rest : List Char}
    (h : byteLength (a ++ rest) ≤ byteLength a) : rest = [] := by
  by_contra hne
  have hpos := Text.byteLength_pos hne
  rw [Text.byteLength_append] at h
  omega

/-- A tag that the source ends in has no end. -/
theorem readFrom_nil {d : Delimiters} (hd : d.closing.toList ≠ []) (p : Place) (sigil : Sigil)
    (start : List Char) :
    readFrom d p sigil start [] = .error ⟨.unclosedTag (beginning start), p⟩ := by
  have hcut : Text.cutAt? (closingOf d sigil.kind) [] = none := by
    rw [Text.cutAt?, List.isEmpty_eq_false_iff.mpr (closingOf_ne_nil hd sigil.kind)]
    rfl
  rw [readFrom, hcut, List.append_nil]

/-- What comes behind the loop gives what the scan gives. -/
theorem finish_eq (hfit : q.Fit) (hstands : Stands source q r) (hend : byteLength source ≤ q.pos) :
    q.finish source = some r := by
  cases hstands with
  | @text done pend rest hmode hsource hstart hpos hline htake =>
    have hrest : rest = [] := by
      refine eq_nil_of_byteLength_le (a := done ++ pend) ?_
      rwa [List.append_assoc, ← hsource, Text.byteLength_append, ← hpos]
    subst hrest
    have hflush := flushText_eq hsource hstart
    have hlength : byteLength done + byteLength pend = byteLength source := by
      rw [hsource, List.append_nil, Text.byteLength_append]
    rw [hlength] at hflush
    have hopen : ∀ t ∈ q.lineTokens ++
        (if pend = [] then [] else [ofText q.delimiters ⟨q.textStart, q.line⟩ pend]),
        t.endsLine = false := by
      refine List.forall_mem_append.mpr ⟨hfit.line, fun t ht => ?_⟩
      split at ht
      · cases ht
      · rw [List.mem_singleton.mp ht]
        exact endsLine_ofText hline
    rw [takeText, List.append_nil] at htake
    rw [finish, hmode, pieces_pending _ hline (by rw [List.append_nil, htake]), pieces]
    simp only [bind, Option.bind, hflush, Except.map, collect, List.append_nil]
    rw [settle_of_open hopen]
    rfl
  | @tagType done rest hmode hsource hstart hpos hline =>
    have hrest : rest = [] := by
      refine eq_nil_of_byteLength_le (a := done ++ q.delimiters.opening.toList) ?_
      rwa [List.append_assoc, ← hsource, Text.byteLength_append, ← hpos]
    subst hrest
    rw [finish, hmode, readTag, List.drop_left]
    simp only [unclosed_eq hsource hstart]
    change _ = some ((readFrom _ _ _ (q.delimiters.opening.toList ++ []) []).bind q.goOn)
    rw [readFrom_nil hfit.closing]
    rfl
  | @tag done mark rest hmode hsource hstart hpos hline =>
    have hrest : rest = [] := by
      refine eq_nil_of_byteLength_le (a := done ++ (q.delimiters.opening.toList ++ mark)) ?_
      rwa [List.append_assoc, ← hsource, Text.byteLength_append, ← hpos]
    subst hrest
    rw [finish, hmode, readFrom_nil hfit.closing]
    simp only [unclosed_eq hsource hstart, List.append_nil]
    rfl

/-! ### Runs -/

/-- How many more turns there can be. A turn that does not go on in the source goes from the type of
a tag to the tag. -/
def turnsLeft (source : List Char) (q : Loop) : Nat :=
  2 * (byteLength source - q.pos) + if q.mode = .tagType then 1 else 0

/-- The loop gives what the scan gives, in as many turns as are left. -/
theorem run_eq (hfit : q.Fit) (hstands : Stands source q r) {n : Nat}
    (hn : q.turnsLeft source ≤ n) : run source n q = some r := by
  induction n generalizing q with
  | zero =>
    have hend : byteLength source ≤ q.pos := by
      unfold turnsLeft at hn
      omega
    rw [run, if_neg (Nat.not_lt_of_le hend)]
    exact finish_eq hfit hstands hend
  | succ n ih =>
    rw [run]
    by_cases hmore : q.pos < byteLength source
    · rw [if_pos hmore]
      have hturns := turns_step hfit hstands hmore
      generalize q.step source = outcome at hturns ⊢
      cases hturns with
      | fails h => rw [h]
      | goes hstands' hfit' hmoves hdelimiters =>
        refine ih hfit' hstands' ?_
        unfold turnsLeft at hn ⊢
        rcases hmoves with hlt | ⟨htype, htag, hsame⟩
        · split <;> omega
        · rw [if_pos htype] at hn
          rw [if_neg (by rw [htag]; decide)]
          omega
    · rw [if_neg hmore]
      exact finish_eq hfit hstands (Nat.le_of_not_lt hmore)

end

/-- The scan of a source by the loop. -/
def scan (d : Delimiters) (source : String) : Option (Except Error (List Token)) :=
  (run source.toList (2 * byteLength source.toList + 1) (start d)).map
    (Except.mapError (·.toError source))

section

variable {d : Delimiters} {source : List Char}

theorem stands_start (d : Delimiters) (source : List Char) :
    Stands source (start d) ((pieces d ⟨0, 1⟩ source).map settle) :=
  .text rfl (show source = [] ++ ([] ++ source) from rfl) rfl rfl List.not_mem_nil rfl

theorem fit_start (hopening : d.opening.toList ≠ []) (hclosing : d.closing.toList ≠ []) :
    (start d).Fit :=
  ⟨hopening, hclosing, nofun, fun _ ht => nomatch ht⟩

/-- Wherever the loop comes to, it stands right. -/
theorem stands_of_reaches (hopening : d.opening.toList ≠ []) (hclosing : d.closing.toList ≠ [])
    {q : Loop} (h : Reaches d source q) :
    q.Fit ∧ Stands source q ((pieces d ⟨0, 1⟩ source).map settle) := by
  induction h with
  | refl => exact ⟨fit_start hopening hclosing, stands_start d source⟩
  | @tail q q' _ hnext ih =>
    have hturns := turns_step ih.1 ih.2 hnext.1
    rw [hnext.2] at hturns
    cases hturns with
    | goes hstands hfit _ _ => exact ⟨hfit, hstands⟩

/-- A place of the loop is one between two characters. -/
theorem Stands.exists_append {q : Loop} {r : Except Fault (List Token)} (h : Stands source q r) :
    ∃ before rest, source = before ++ rest ∧ q.pos = byteLength before := by
  cases h with
  | @text done pend rest _ hsource _ hpos _ _ =>
    exact ⟨done ++ pend, rest, by rw [hsource, List.append_assoc],
      by rw [hpos, Text.byteLength_append]⟩
  | @tagType done rest _ hsource _ hpos _ =>
    exact ⟨done ++ q.delimiters.opening.toList, rest, by rw [hsource, List.append_assoc],
      by rw [hpos, Text.byteLength_append]⟩
  | @tag done mark rest _ hsource _ hpos _ =>
    exact ⟨done ++ (q.delimiters.opening.toList ++ mark), rest,
      by rw [hsource, List.append_assoc done], by rw [hpos, Text.byteLength_append done]⟩

end

/-- Behind a switch to a pair the loop is in text, with the pair in force. -/
theorem exists_reaches_behind_switch {a d : Delimiters} (ha : a.Writable) (hd : d.Writable)
    (more : List Char) :
    ∃ q, Reaches a ((d.switchFrom a).toList ++ more) q ∧ q.mode = .text ∧ q.delimiters = d ∧
      q.pos = byteLength (d.switchFrom a).toList := by
  obtain ⟨hdo, hdc⟩ := hd.halves
  let body := ' ' :: (d.text.toList ++ [' '])
  let rest := body ++ (closingOf a .delimiters ++ more)
  let source := (d.switchFrom a).toList ++ more
  have hsource : source = a.opening.toList ++ '=' :: rest := by
    simp [source, rest, body, Delimiters.switchFrom, closingOf]
  have hlength : byteLength (d.switchFrom a).toList = 0 + byteLength a.opening.toList + 1 +
      byteLength body + byteLength (closingOf a .delimiters) := by
    have hsize : ('='.utf8Size, ' '.utf8Size) = (1, 1) := by decide
    have htag : (d.switchFrom a).toList =
        a.opening.toList ++ ('=' :: body) ++ closingOf a .delimiters := by
      simp [body, Delimiters.switchFrom, closingOf]
    rw [htag, Text.byteLength_append, Text.byteLength_append, Text.byteLength_cons,
      (Prod.mk.inj hsize).1]
    omega
  have hcut : Text.cutAt? (closingOf a .delimiters) rest = some (body, more) := by
    refine Text.cutAt?_of_notMem ?_ a.closing.toList more
    simp [body, Delimiters.text, hdo.equals_notMem, hdc.equals_notMem]
  have hcontent : contentOf a ⟨.delimiters, [], false⟩ body more =
      .ok ⟨d.text.toList, d, [], more⟩ := by
    simp only [contentOf, body, hd.parse?_padded, hd.tight_text.trim_padded]
    rfl
  have hmore : byteLength source = byteLength (d.switchFrom a).toList + byteLength more :=
    Text.byteLength_append _ _
  have hcloses := Text.byteLength_pos (closingOf_ne_nil ha.halves.2.ne_nil .delimiters)
  let opened : Loop := { start a with
    mode := .tagType, pos := 0 + byteLength a.opening.toList }
  let typed : Loop := { opened with
    mode := .tag, kind := .delimiters, pos := opened.pos + 1 }
  have hfirst : Next source (start a) opened := by
    refine ⟨?_, step_opening (q := start a) rfl (show source = [] ++ ([] ++ _) from hsource) rfl
      rfl⟩
    change 0 < byteLength source
    omega
  have hsecond : Next source opened typed := by
    have hrest : from? source opened.pos = some ('=' :: rest) := by
      rw [hsource]
      change from? _ (0 + byteLength a.opening.toList) = _
      rw [Nat.zero_add]
      exact from?_append _ _
    refine ⟨?_, ?_⟩
    · change 0 + byteLength a.opening.toList < byteLength source
      omega
    · have htyped := stepTagType_eq hrest
      change Except.ok <$> stepTagType source opened = _
      rw [htyped]
      rfl
  have hthird := step_tag (q := typed) rfl
    (show source = (a.opening.toList ++ ['=']) ++ rest by rw [hsource, List.append_assoc]; rfl)
    (by rw [Text.byteLength_append]; exact congrArg (· + 1) (Nat.zero_add _)) hcut hcontent
  refine ⟨_, ((Relation.ReflTransGen.single hfirst).tail hsecond).tail ⟨?_, hthird⟩, rfl, rfl, ?_⟩
  · change 0 + byteLength a.opening.toList + 1 < byteLength source
    omega
  · exact hlength.symm

/-- What is asked of scanning a source from some delimiters on. The loop is at places between
characters, goes on in the source or from the type of a tag to the tag, brings into force only
pairs that can be written, cuts the source within it and between characters, and gives what is
scanned in no more turns than twice the length and one. -/
structure Ends (d : Delimiters) (source : String) : Prop where
  place : ∀ {q}, Reaches d source.toList q →
    ∃ before rest, source.toList = before ++ rest ∧ q.pos = byteLength before
  moves : ∀ {q q'}, Reaches d source.toList q → Next source.toList q q' →
    q.pos < q'.pos ∨ q.mode = .tagType ∧ q'.mode = .tag ∧ q'.pos = q.pos
  switches : ∀ {q q'}, Reaches d source.toList q → Next source.toList q q' →
    q'.delimiters = q.delimiters ∨ Delimiters.IsHalf q'.delimiters.opening.toList ∧
      Delimiters.IsHalf q'.delimiters.closing.toList
  cuts : ∀ {q}, Reaches d source.toList q →
    if q.pos < byteLength source.toList then (q.step source.toList).isSome
    else (q.finish source.toList).isSome
  scan : Loop.scan d source = some (Token.scan d source)

/-- **Scanning always ends, and never cuts a source where it must not.** -/
theorem ends_of_ne_nil {d : Delimiters} (hopening : d.opening.toList ≠ [])
    (hclosing : d.closing.toList ≠ []) (source : String) : Ends d source where
  place h := (stands_of_reaches hopening hclosing h).2.exists_append
  moves h hnext := by
    obtain ⟨hfit, hstands⟩ := stands_of_reaches hopening hclosing h
    have hturns := turns_step hfit hstands hnext.1
    rw [hnext.2] at hturns
    cases hturns with
    | goes _ _ hmoves _ => exact hmoves
  switches h hnext := by
    obtain ⟨hfit, hstands⟩ := stands_of_reaches hopening hclosing h
    have hturns := turns_step hfit hstands hnext.1
    rw [hnext.2] at hturns
    cases hturns with
    | goes _ _ _ hdelimiters => exact hdelimiters.imp_right Delimiters.Writable.halves
  cuts {q} h := by
    obtain ⟨hfit, hstands⟩ := stands_of_reaches hopening hclosing h
    split
    · rename_i hmore
      have hturns := turns_step hfit hstands hmore
      cases hstep : q.step source.toList with
      | none =>
        rw [hstep] at hturns
        cases hturns
      | some o => rfl
    · rename_i hend
      rw [finish_eq hfit hstands (Nat.le_of_not_lt hend)]
      rfl
  scan := by
    have hleft : (start d).turnsLeft source.toList ≤ 2 * byteLength source.toList + 1 :=
      Nat.le_succ _
    have hrun := run_eq (fit_start hopening hclosing) (stands_start d source.toList) hleft
    rw [Loop.scan, hrun, Token.scan]
    cases pieces d ⟨0, 1⟩ source.toList <;> rfl

end Loop

end Token

end Mustache
