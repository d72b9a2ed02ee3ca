import Mustache.Proofs.Node.Visits
import Mustache.Proofs.Token.Indented
import Mustache.Template

/-!
Two readings of a source, one without and one with an indent in front of each line, token by token.
Where nothing but texts, variables and what leaves no trace begins the lines that do not stand
alone, and only the first tag takes an indent on those that do, they differ by the indent: it is in
the texts and in the indents of partials, or is a text of its own where a line begins with a
variable. Main statement: `exists_indents_scan`.
-/

namespace Mustache

/-- How far two readings of a line are, the second of which finds an indent in front of it. -/
inductive Margin
  /-- Both are in front of the line and its indent. -/
  | ahead
  /-- The second is behind the indent, the first still at the beginning of the line. -/
  | written
  /-- Both are within the line. -/
  | behind
deriving DecidableEq

namespace Margin

/-- In the first reading, what comes next begins a line. -/
def first : Margin → Bool
  | ahead | written => true
  | behind => false

/-- In the second reading, what comes next begins a line. -/
def second : Margin → Bool
  | ahead => true
  | written | behind => false

/-- What the second reading has for a text of the first. -/
def piece (w text : String) : Margin → String
  | ahead => w ++ text
  | written | behind => text

def after (text : String) : Margin := if Template.endsInNewline text then ahead else behind

@[simp] theorem first_after (text : String) : (after text).first = Template.endsInNewline text := by
  unfold after
  cases Template.endsInNewline text <;> rfl

@[simp] theorem second_after (text : String) :
    (after text).second = Template.endsInNewline text := by
  unfold after
  cases Template.endsInNewline text <;> rfl

end Margin

/-! ### Tokens -/

namespace TokenKind

/-- The tag leaves no trace in the output. -/
def isSilent : TokenKind → Bool
  | comment | delimiters | pragma => true
  | _ => false

/-- Without blocks, the tag is a variable. -/
def isVariable : TokenKind → Bool
  | escaped | unescaped | block => true
  | _ => false

end TokenKind

namespace Token

/-- Outside, the tag gets the indent. -/
def indentBy (w : String) (t : Token) : Token := { t with indent := t.indent.map (w ++ ·) }

/-- The pragma for blocks is not enabled by this token. -/
def SparesBlocks (t : Token) : Prop :=
  t.kind = .pragma → Pragma.ofName? (trimmed t.value) ≠ some .blocks

theorem SparesBlocks.blocks_enable {t : Token} (h : t.SparesBlocks) (hkind : t.kind = .pragma)
    {s : PragmaSet} (hoff : s.blocks = false) : (s.enable t.value).blocks = false := by
  refine Bool.eq_false_iff.mpr fun hon => ?_
  rcases (s.contains_enable t.value .blocks).mp hon with hon | hname
  · rw [show s.contains .blocks = s.blocks from rfl, hoff] at hon
    cases hon
  · exact h hkind hname

theorem sparesBlocks_of_through {s : PragmaSet} {ts : List Token}
    (hoff : (s.through ts).contains .blocks = false) :
    s.blocks = false ∧ ∀ t ∈ ts, t.SparesBlocks := by
  have hnone := mt PragmaSet.contains_through.mpr (Bool.eq_false_iff.mp hoff)
  rw [not_or] at hnone
  refine ⟨Bool.eq_false_iff.mpr hnone.1, fun t ht hkind hname => hnone.2 ⟨t, ht, hkind, hname⟩⟩

theorem fields_of_anywhere {t t' : Token} (h : t'.anywhere = t.anywhere) :
    t'.kind = t.kind ∧ t'.value = t.value ∧ t'.line = t.line ∧ t'.delimiters = t.delimiters ∧
      t'.indent = t.indent := by
  cases t
  cases t'
  cases h
  exact ⟨rfl, rfl, rfl, rfl, rfl⟩

/-- The second tokens are the first ones with an indent in front of each line, from a margin on. -/
inductive Indents (w : String) : Margin → List Token → List Token → Prop
  | nil {k : Margin} (hk : k ≠ .written) : Indents w k [] []
  | margin {t : Token} {ts ts' : List Token} (hkind : t.kind = .text) (hvalue : t.value = w)
      (h : Indents w .written ts ts') : Indents w .ahead ts (t :: ts')
  | text {k : Margin} {t t' : Token} {ts ts' : List Token} (hkind : t.kind = .text)
      (hkind' : t'.kind = .text) (hvalue : t'.value = k.piece w t.value)
      (h : Indents w (.after t.value) ts ts') : Indents w k (t :: ts) (t' :: ts')
  | silent {k : Margin} {t t' : Token} {ts ts' : List Token} (hkind : t.kind.isSilent = true)
      (hsame : t'.anywhere = t.anywhere) (hspares : t.SparesBlocks) (h : Indents w k ts ts') :
      Indents w k (t :: ts) (t' :: ts')
  | isVariable {k : Margin} {t t' : Token} {ts ts' : List Token} (hk : k ≠ .ahead)
      (hkind : t.kind.isVariable = true) (hsame : t'.anywhere = t.anywhere)
      (h : Indents w .behind ts ts') : Indents w k (t :: ts) (t' :: ts')
  | other {k : Margin} {t t' : Token} {ts ts' : List Token} (hk : k ≠ .written)
      (htext : t.isText = false) (hsilent : t.kind.isSilent = false)
      (hvariable : t.kind.isVariable = false) (hsame : t'.anywhere = (t.indentBy w).anywhere)
      (h : Indents w k ts ts') : Indents w k (t :: ts) (t' :: ts')

/-- An indent in front of the line is put out once: on a line that stands alone, at most the first
tag takes an indent, and on any other a text or a variable comes before what leads to other
steps. -/
def indentsOnce (line : List Token) : Bool :=
  if standsAlone line then
    (line.all fun t => !t.kind.isVariable) &&
      (line.dropWhile isText).tail.all fun t => !t.kind.takesIndent
  else (line.find? fun t => !t.kind.isSilent).any fun t => t.isText || t.kind.isVariable

/-- The margin behind a token that both readings find within a line. -/
def marginBehind (t : Token) : Margin := if t.endsLine then .ahead else .behind

section

variable {w : String} {line rest rest' : List Token}

theorem after_value {t : Token} (htext : t.isText = true) :
    Margin.after t.value = t.marginBehind := by
  simp [Margin.after, Template.endsInNewline, marginBehind, endsLine, htext]

theorem marginBehind_of_tag {t : Token} (htext : t.isText = false) : t.marginBehind = .behind := by
  simp [marginBehind, endsLine, htext]

theorem Indents.silents (hsilent : ∀ t ∈ line, t.kind.isSilent = true)
    (hspares : ∀ t ∈ line, t.SparesBlocks) {k : Margin} (h : Indents w k rest rest') :
    Indents w k (line ++ rest) (line ++ rest') := by
  induction line with
  | nil => exact h
  | cons t ts ih =>
    rw [List.forall_mem_cons] at hsilent hspares
    exact .silent hsilent.1 rfl hspares.1 (ih hsilent.2 hspares.2)

/-- A text or variable that the indent stands in front of already. -/
theorem Indents.putsOut {t : Token} (ht : t.isText = true ∨ t.kind.isVariable = true) {k : Margin}
    (hk : k ≠ .ahead) (h : Indents w t.marginBehind rest rest') :
    Indents w k (t :: rest) (t :: rest') := by
  rcases ht with htext | hvariable
  · have hkind : t.kind = .text := of_decide_eq_true htext
    refine .text hkind hkind ?_ (after_value htext ▸ h)
    cases k with
    | ahead => exact absurd rfl hk
    | written => rfl
    | behind => rfl
  · have htext : t.isText = false := by
      cases hkind : t.kind <;> simp_all [isText, TokenKind.isVariable]
    exact .isVariable hk hvariable rfl (marginBehind_of_tag htext ▸ h)

/-- A tag without an indent that puts nothing out itself is the same in both readings. -/
theorem Indents.tag {t : Token} (hspares : t.SparesBlocks) (hindent : t.indent = none)
    (htext : t.isText = false) (hvariable : t.kind.isVariable = false) {k : Margin}
    (hk : k ≠ .written) (h : Indents w k rest rest') : Indents w k (t :: rest) (t :: rest') := by
  cases hsilent : t.kind.isSilent with
  | true => exact .silent hsilent rfl hspares h
  | false =>
    have hsame : t.indentBy w = t := by
      rw [indentBy, hindent]
      exact congrArg (fun i => { t with indent := i }) hindent.symm
    exact .other hk htext hsilent hvariable (by rw [hsame]) h

/-! #### Lines that do not stand alone -/

/-- Within a line, both readings find the same. -/
theorem Indents.within {t : Token} (hspares : t.SparesBlocks) (hindent : t.indent = none)
    (h : Indents w t.marginBehind rest rest') : Indents w .behind (t :: rest) (t :: rest') := by
  by_cases hputs : t.isText = true ∨ t.kind.isVariable = true
  · exact .putsOut hputs (by decide) h
  · obtain ⟨htext, hvariable⟩ := not_or.mp hputs
    rw [Bool.not_eq_true] at htext hvariable
    rw [marginBehind_of_tag htext] at h
    exact .tag hspares hindent htext hvariable (by decide) h

theorem Indents.withinLine (hne : line ≠ []) (hspares : ∀ t ∈ line, t.SparesBlocks)
    (hindents : ∀ t ∈ line, t.indent = none) (hends : ∀ t ∈ line.dropLast, t.endsLine = false)
    (h : Indents w (line.getLast hne).marginBehind rest rest') :
    Indents w .behind (line ++ rest) (line ++ rest') := by
  induction line with
  | nil => exact absurd rfl hne
  | cons t ts ih =>
    rw [List.forall_mem_cons] at hspares hindents
    refine .within hspares.1 hindents.1 ?_
    cases ts with
    | nil => exact h
    | cons u us =>
      rw [List.dropLast_cons_cons, List.forall_mem_cons] at hends
      rw [marginBehind, hends.1, if_neg Bool.false_ne_true]
      exact ih (List.cons_ne_nil u us) hspares.2 hindents.2 hends.2 h

/-- Behind the first token, both readings of a line find the same. -/
theorem Indents.tail {t : Token} (hspares : ∀ u ∈ line, u.SparesBlocks)
    (hindents : ∀ u ∈ line, u.indent = none)
    (hends : ∀ u ∈ (t :: line).dropLast, u.endsLine = false)
    (h : Indents w ((t :: line).getLast (List.cons_ne_nil t line)).marginBehind rest rest') :
    Indents w t.marginBehind (line ++ rest) (line ++ rest') := by
  cases line with
  | nil => exact h
  | cons u us =>
    rw [List.dropLast_cons_cons, List.forall_mem_cons] at hends
    rw [marginBehind, hends.1, if_neg Bool.false_ne_true]
    exact .withinLine (List.cons_ne_nil u us) hspares hindents hends.2 h

theorem Indents.indentLine (hne : line ≠ []) (halone : standsAlone line = false)
    (honce : indentsOnce line = true) (hspares : ∀ t ∈ line, t.SparesBlocks)
    (hindents : ∀ t ∈ line, t.indent = none) (hends : ∀ t ∈ line.dropLast, t.endsLine = false)
    (h : Indents w (line.getLast hne).marginBehind rest rest') :
    Indents w .ahead (line ++ rest) (Token.indentLine w line ++ rest') := by
  rw [indentsOnce, halone, if_neg Bool.false_ne_true] at honce
  cases hfind : line.find? fun t => !t.kind.isSilent with
  | none =>
    rw [hfind] at honce
    cases honce
  | some t =>
    rw [hfind] at honce
    obtain ⟨-, silents, more, rfl, hsilents⟩ := List.find?_eq_some_iff_append.mp hfind
    obtain ⟨hspares', hmore⟩ := List.forall_mem_append.mp hspares
    have htail : Indents w t.marginBehind (more ++ rest) (more ++ rest') := by
      refine .tail (fun u hu => hmore u (List.mem_cons_of_mem t hu))
        (fun u hu => hindents u (List.mem_append_right silents (List.mem_cons_of_mem t hu))) ?_ ?_
      · rw [List.dropLast_append_of_ne_nil (List.cons_ne_nil t more)] at hends
        exact (List.forall_mem_append.mp hends).2
      · rwa [List.getLast_append_of_ne_nil] at h
    have hputs : t.isText = true ∨ t.kind.isVariable = true := by
      simpa using honce
    have hwritten : Indents w .written (silents ++ t :: more ++ rest)
        (silents ++ t :: more ++ rest') := by
      rw [List.append_assoc, List.append_assoc]
      refine .silents (fun u hu => ?_) hspares' (.putsOut hputs (by decide) htail)
      simpa using hsilents u hu
    -- the indent is a text of its own unless the line begins with one
    have hmargin : ∀ u us, silents ++ t :: more = u :: us → u.isText = false →
        Indents w .ahead (silents ++ t :: more ++ rest)
          (Token.indentLine w (silents ++ t :: more) ++ rest') := by
      intro u us heq htext
      rw [heq] at hwritten ⊢
      rw [Token.indentLine, htext, if_neg Bool.false_ne_true]
      exact .margin rfl rfl hwritten
    cases silents with
    | nil =>
      cases htext : t.isText with
      | true =>
        have hkind : t.kind = .text := of_decide_eq_true htext
        rw [List.nil_append, Token.indentLine, if_pos htext]
        exact .text hkind hkind rfl (after_value htext ▸ htail)
      | false => exact hmargin t more rfl htext
    | cons c cs =>
      refine hmargin c (cs ++ t :: more) rfl ?_
      have hsilent := hsilents c List.mem_cons_self
      cases hkind : c.kind <;> simp_all [isText, TokenKind.isSilent]

/-! #### Lines that stand alone -/

/-- Behind the first tag of such a line nothing has the indent. -/
theorem Indents.dropTexts_plain (hspares : ∀ t ∈ line, t.SparesBlocks)
    (hindents : ∀ t ∈ line, t.indent = none) (hvariables : ∀ t ∈ line, t.kind.isVariable = false)
    (htakes : ∀ t ∈ line, t.kind.takesIndent = false) (h : Indents w .ahead rest rest')
    (indent : String) :
    Indents w .ahead (dropTexts indent line ++ rest) (dropTexts indent line ++ rest') := by
  induction line generalizing indent with
  | nil => exact h
  | cons t ts ih =>
    rw [List.forall_mem_cons] at hspares hindents hvariables htakes
    have hrest := ih hspares.2 hindents.2 hvariables.2 htakes.2
    cases htext : t.isText with
    | true =>
      rw [dropTexts, if_pos htext]
      exact hrest _
    | false =>
      rw [dropTexts_cons_tag htext, settled, htakes.1, if_neg Bool.false_ne_true]
      exact .tag hspares.1 hindents.1 htext hvariables.1 (by decide) (hrest "")

theorem Indents.dropTexts (hspares : ∀ t ∈ line, t.SparesBlocks)
    (hindents : ∀ t ∈ line, t.indent = none) (hvariables : ∀ t ∈ line, t.kind.isVariable = false)
    (htakes : ∀ t ∈ (line.dropWhile isText).tail, t.kind.takesIndent = false)
    (h : Indents w .ahead rest rest') (indent : String) :
    Indents w .ahead (Token.dropTexts indent line ++ rest)
      (Token.dropTexts (w ++ indent) line ++ rest') := by
  induction line generalizing indent with
  | nil => exact h
  | cons t ts ih =>
    rw [List.forall_mem_cons] at hspares hindents hvariables
    cases htext : t.isText with
    | true =>
      rw [List.dropWhile_cons_of_pos htext] at htakes
      rw [Token.dropTexts, Token.dropTexts, if_pos htext, if_pos htext, String.append_assoc]
      exact ih hspares.2 hindents.2 hvariables.2 htakes _
    | false =>
      rw [List.dropWhile_cons_of_neg (Bool.eq_false_iff.mp htext), List.tail_cons] at htakes
      have hrest := dropTexts_plain hspares.2 hindents.2 hvariables.2 htakes h ""
      rw [dropTexts_cons_tag htext, dropTexts_cons_tag htext, settled, settled]
      cases htake : t.kind.takesIndent with
      | true =>
        have hsilent : t.kind.isSilent = false := by
          cases hkind : t.kind <;> simp_all [TokenKind.takesIndent, TokenKind.isSilent]
        exact .other (by decide) htext hsilent hvariables.1 rfl hrest
      | false => exact .tag hspares.1 hindents.1 htext hvariables.1 (by decide) hrest

/-! #### All lines -/

/-- Tokens whose lines put an indent out once, without and with an indent in front of each line. -/
theorem indents_settle (w : String) {ts : List Token} (hspares : ∀ t ∈ ts, t.SparesBlocks)
    (hindents : ∀ t ∈ ts, t.indent = none)
    (honce : ∀ line ∈ splitLines ts, indentsOnce line = true) :
    Indents w .ahead (settle ts) ((splitLines ts).flatMap (settleIndented w)) := by
  suffices hlines : ∀ before lines, splitLines ts = before ++ lines →
      Indents w .ahead (lines.flatMap settleLine) (lines.flatMap (settleIndented w)) from
    hlines [] _ rfl
  intro before lines hsplit
  induction lines generalizing before with
  | nil => exact .nil (by decide)
  | cons line lines ih =>
    have hrest := ih (before ++ [line]) (by simpa using hsplit)
    have hline : line ∈ splitLines ts := hsplit ▸ List.mem_append_right before List.mem_cons_self
    have hmem : ∀ t ∈ line, t ∈ ts := fun t ht =>
      flatten_splitLines ts ▸ List.mem_flatten_of_mem hline ht
    have hspares' : ∀ t ∈ line, t.SparesBlocks := fun t ht => hspares t (hmem t ht)
    have hindents' : ∀ t ∈ line, t.indent = none := fun t ht => hindents t (hmem t ht)
    rw [List.flatMap_cons, List.flatMap_cons, settleLine, settleIndented]
    cases halone : standsAlone line with
    | true =>
      have hline' := honce line hline
      rw [indentsOnce, if_pos halone, Bool.and_eq_true] at hline'
      have hdropped := Indents.dropTexts hspares' hindents'
        (fun t ht => by simpa using List.all_eq_true.mp hline'.1 t ht)
        (fun t ht => by simpa using List.all_eq_true.mp hline'.2 t ht) hrest ""
      rwa [String.append_empty] at hdropped
    | false =>
      rw [if_neg Bool.false_ne_true, if_neg Bool.false_ne_true]
      obtain ⟨front, last, rfl, hfront, hlast⟩ := exists_last_of_splitLines hsplit
      refine .indentLine (List.concat_ne_nil last front) halone (honce _ hline) hspares' hindents'
        (by rwa [List.dropLast_concat]) ?_
      rw [List.getLast_concat]
      rcases hlast with rfl | hends
      · refine .nil ?_
        unfold marginBehind
        split <;> decide
      · rwa [marginBehind, if_pos hends]

/-- Where the second tokens stand does not matter. -/
theorem Indents.relocated {k : Margin} {ts us us' : List Token} (h : Indents w k ts us)
    (hsame : us'.map anywhere = us.map anywhere) : Indents w k ts us' := by
  induction h generalizing us' with
  | nil hk =>
    obtain rfl := List.map_eq_nil_iff.mp hsame
    exact .nil hk
  | margin hkind hvalue h ih =>
    obtain ⟨u, us', rfl, hu, hus⟩ := List.map_eq_cons_iff.mp hsame
    obtain ⟨hkind', hvalue', -⟩ := fields_of_anywhere hu
    exact .margin (hkind'.trans hkind) (hvalue'.trans hvalue) (ih hus)
  | text hkind hkind' hvalue h ih =>
    obtain ⟨u, us', rfl, hu, hus⟩ := List.map_eq_cons_iff.mp hsame
    obtain ⟨hkind'', hvalue', -⟩ := fields_of_anywhere hu
    exact .text hkind (hkind''.trans hkind') (hvalue'.trans hvalue) (ih hus)
  | silent hkind hold hspares h ih =>
    obtain ⟨u, us', rfl, hu, hus⟩ := List.map_eq_cons_iff.mp hsame
    exact .silent hkind (hu.trans hold) hspares (ih hus)
  | isVariable hk hkind hold h ih =>
    obtain ⟨u, us', rfl, hu, hus⟩ := List.map_eq_cons_iff.mp hsame
    exact .isVariable hk hkind (hu.trans hold) (ih hus)
  | other hk htext hsilent hvariable hold h ih =>
    obtain ⟨u, us', rfl, hu, hus⟩ := List.map_eq_cons_iff.mp hsame
    exact .other hk htext hsilent hvariable (hu.trans hold) (ih hus)

/-- **A source with an indent in front of each line has the tokens of the source, but for the
indent**, if no tag goes over the end of a line, no pragma tag enables blocks and each line puts an
indent out once. -/
theorem exists_indents_scan (hw : IsIndent w.toList) {d : Delimiters} (hd : d.Writable)
    {source : String} {ts : List Token} (hts : pieces d ⟨0, 1⟩ source.toList = .ok ts)
    (htags : TagsWithinLines 0 source.toList ts) (hspares : ∀ t ∈ ts, t.SparesBlocks)
    (honce : ∀ line ∈ splitLines ts, indentsOnce line = true) :
    ∃ us, scan d (String.ofList (Text.indentLines w.toList source.toList)) = .ok us ∧
      Indents w .ahead (settle ts) us := by
  have hindents : ∀ t ∈ ts, t.indent = none := by
    intro t ht
    obtain ⟨_, _, _, -, hfits⟩ := (tiling_of_pieces hts).exists_fits ht
    exact hfits.indent_eq
  obtain ⟨us, hus, hsame⟩ := settle_of_indentLines hw hd hts htags
  refine ⟨settle us, ?_, (indents_settle w hspares hindents honce).relocated hsame⟩
  rw [scan, String.toList_ofList, hus]

end

end Token

end Mustache
