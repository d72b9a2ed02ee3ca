import Mustache.Proofs.Engine.Beside
import Mustache.Proofs.Token.Written

/-!
What the bytes of a key say. They spell one text, the options of an engine and then a source, and
each option can be read back from it, for every one but the last ends at a character that it
cannot have. The last is the closing delimiter, which may hold the very character that ends it.
Main statement: `keyBytes_eq_iff`.
-/

namespace Mustache

/-- The text in front of the first `c` and that behind it are determined by the whole. -/
theorem Text.eq_of_append_cons {c : Char} {a b x y : List Char} (ha : c ∉ a) (hb : c ∉ b)
    (h : a ++ c :: x = b ++ c :: y) : a = b ∧ x = y := by
  rcases List.append_eq_append_iff.mp h with ⟨mid, rfl, hrest⟩ | ⟨mid, rfl, hrest⟩
  · cases mid with
    | nil => exact ⟨by simp, (List.cons.inj hrest).2⟩
    | cons d mid => exact absurd (by simp [(List.cons.inj hrest).1]) hb
  · cases mid with
    | nil => exact ⟨by simp, (List.cons.inj hrest).2.symm⟩
    | cons d mid => exact absurd (by simp [(List.cons.inj hrest).1]) ha

namespace Engine

variable {σ τ : Type}

/-! ### The text of the bytes -/

theorem keyBytes_eq (fingerprint source : String) :
    keyBytes fingerprint source = (fingerprint ++ "\x00" ++ source).toUTF8.toList := by
  have hbytes : ∀ s : String, s.toUTF8.toList = s.toByteArray.data.toList := fun s =>
    byteArray_toList_loop s.toUTF8 0 []
  unfold keyBytes
  rw [hbytes, hbytes, hbytes, String.toByteArray_append, String.toByteArray_append,
    ByteArray.data_append, ByteArray.data_append, Array.toList_append, Array.toList_append,
    List.append_assoc]
  rfl

theorem keyBytes_eq_keyBytes_iff {fingerprint fingerprint' source source' : String} :
    keyBytes fingerprint source = keyBytes fingerprint' source' ↔
      fingerprint.toList ++ '\x00' :: source.toList =
        fingerprint'.toList ++ '\x00' :: source'.toList := by
  have hlist : ∀ f s : String,
      (f ++ "\x00" ++ s).toList = f.toList ++ '\x00' :: s.toList := by simp
  rw [keyBytes_eq, keyBytes_eq, ← hlist, ← hlist, String.toList_inj]
  exact ⟨utf8_injective, fun h => h ▸ rfl⟩

/-! ### Options that hold no bar -/

theorem bar_notMem_keyName (escape : Escape) : '|' ∉ escape.keyName.toList := by
  rcases escape with (_ | _ | _) | f
  · decide
  · decide
  · decide
  · exact (by decide : '|' ∉ "custom".toList)

theorem bar_notMem_boolText (b : Bool) : '|' ∉ (boolText b).toList := by cases b <;> decide

theorem bar_notMem_text (pragmas : PragmaSet) : '|' ∉ pragmas.text.toList := by
  have hall : ∀ a b c d e : Bool, '|' ∉ (PragmaSet.mk a b c d e).text.toList := by decide +kernel
  exact hall _ _ _ _ _

theorem boolText_injective : Function.Injective boolText := by
  intro a b h
  cases a <;> cases b <;> first | rfl | exact absurd h (by decide)

/-- A pragma is in the set if its name is in the text. -/
theorem contains_eq_contains_text (pragmas : PragmaSet) (p : Pragma) :
    pragmas.contains p = Text.contains p.name.toList pragmas.text.toList := by
  have hall : ∀ a b c d e : Bool, ∀ p ∈ Pragma.all, (PragmaSet.mk a b c d e).contains p =
      Text.contains p.name.toList (PragmaSet.mk a b c d e).text.toList := by
    decide +kernel
  exact hall _ _ _ _ _ p (Pragma.mem_all p)

theorem text_injective : Function.Injective PragmaSet.text := by
  intro s t h
  have hcontains : ∀ p, s.contains p = t.contains p := by
    intro p
    rw [contains_eq_contains_text, contains_eq_contains_text, h]
  obtain ⟨_, _, _, _, _⟩ := s
  obtain ⟨_, _, _, _, _⟩ := t
  rw [PragmaSet.mk.injEq]
  exact ⟨hcontains .filters, hcontains .blocks, hcontains .dynamicNames,
    hcontains .strictVariables, hcontains .selfClosing⟩

theorem keyName_html_injective {mode mode' : QuoteMode}
    (h : (Escape.html mode).keyName = (Escape.html mode').keyName) : mode = mode' := by
  cases mode <;> cases mode' <;> first | rfl | exact absurd h (by decide)

/-! ### Engines of acceptable options -/

/-- The engine was made from options that were found acceptable, and escapes as HTML. -/
structure Configured (e : Engine σ) : Prop where
  valid : e.config.validate = .ok ()
  html : ∃ mode, e.escape = .html mode
  delimiters : e.config.initialDelimiters = .ok e.delimiters
  pragmas : e.pragmas = e.config.pragmaSet

theorem isUtf8_of_validate {c : Config} (h : c.validate = .ok ()) :
    Config.isUtf8 c.charset = true := by
  unfold Config.validate at h
  cases hutf8 : Config.isUtf8 c.charset with
  | true => rfl
  | false =>
    rw [hutf8] at h
    cases h

theorem configured_of_parse? {e : Engine σ} {mode : QuoteMode}
    (hcharset : Config.isUtf8 e.config.charset = true) (hdepth : e.config.maxDepth ≠ 0)
    (hparse : Delimiters.parse? e.config.delimiters.toList = some e.delimiters)
    (hescape : e.escape = .html mode) (hpragmas : e.pragmas = e.config.pragmaSet) :
    e.Configured := by
  have hdelimiters : e.config.initialDelimiters = .ok e.delimiters := by
    unfold Config.initialDelimiters
    rw [hparse]
  refine ⟨?_, ⟨mode, hescape⟩, hdelimiters, hpragmas⟩
  unfold Config.validate
  rw [hcharset, if_neg hdepth, hdelimiters]
  rfl

theorem Configured.bar_notMem_charsetKey {e : Engine σ} (h : e.Configured) :
    '|' ∉ e.config.charsetKey.toList := by
  have hutf8 := isUtf8_of_validate h.valid
  unfold Config.isUtf8 at hutf8
  unfold Config.charsetKey
  rw [Bool.or_eq_true, beq_iff_eq, beq_iff_eq] at hutf8
  rcases hutf8 with hkey | hkey <;> rw [hkey] <;> decide

theorem Configured.blank_notMem_opening {e : Engine σ} (h : e.Configured) :
    ' ' ∉ e.delimiters.opening.toList := by
  have hwritable : e.delimiters.Writable := by
    have hparse := h.delimiters
    unfold Config.initialDelimiters at hparse
    split at hparse
    · rename_i d hd
      exact ⟨_, Except.ok.inj hparse ▸ hd⟩
    · cases hparse
  exact fun hmem => absurd (hwritable.halves.1.dark _ hmem) (by decide)

/-- All options that have a part in what a source compiles to are the same, but for the closing
delimiter. -/
structure SameButClosing (e : Engine σ) (e' : Engine τ) : Prop where
  escape : e'.escape = e.escape
  charset : e'.config.charsetKey = e.config.charsetKey
  strictCallables : e'.config.strictCallables = e.config.strictCallables
  strictVariables : e'.config.strictVariables = e.config.strictVariables
  pragmas : e'.pragmas = e.pragmas
  opening : e'.delimiters.opening = e.delimiters.opening

/-- The options as a key spells them, up to the closing delimiter. -/
def spelledOptions (e : Engine σ) (rest : List Char) : List Char :=
  "stache ".toList ++ version.toList ++ "|escape=".toList ++
    (e.escape.keyName.toList ++ '|' :: ("charset=".toList ++
      (e.config.charsetKey.toList ++ '|' :: ("strict_callables=".toList ++
        ((boolText e.config.strictCallables).toList ++ '|' :: ("strict_variables=".toList ++
          ((boolText e.config.strictVariables).toList ++ '|' :: ("pragmas=".toList ++
            (e.pragmas.text.toList ++ '|' :: ("delimiters=".toList ++
              (e.delimiters.opening.toList ++ ' ' :: rest)))))))))))

theorem toList_fingerprint (e : Engine σ) :
    e.fingerprint.toList = e.spelledOptions e.delimiters.closing.toList := by
  unfold fingerprint spelledOptions Delimiters.text
  simp [List.append_assoc]

theorem spelledOptions_append (e : Engine σ) (rest after : List Char) :
    e.spelledOptions rest ++ after = e.spelledOptions (rest ++ after) := by
  unfold spelledOptions
  simp [List.append_assoc]

/-- Whatever the options, the bytes tell the name of the escape. -/
theorem keyName_eq_of_keyBytes_eq {e : Engine σ} {e' : Engine τ} {source source' : String}
    (h : keyBytes e.fingerprint source = keyBytes e'.fingerprint source') :
    e.escape.keyName = e'.escape.keyName := by
  rw [keyBytes_eq_keyBytes_iff, toList_fingerprint, toList_fingerprint, spelledOptions_append,
    spelledOptions_append] at h
  unfold spelledOptions at h
  have hnames := (Text.eq_of_append_cons (bar_notMem_keyName _) (bar_notMem_keyName _)
    (List.append_cancel_left h)).1
  exact String.toList_inj.mp hnames

/-- Each option ends at a character that it has not got. -/
theorem spelledOptions_eq_iff {e : Engine σ} {e' : Engine τ} (he : e.Configured)
    (he' : e'.Configured) {rest rest' : List Char} :
    e.spelledOptions rest = e'.spelledOptions rest' ↔ e.SameButClosing e' ∧ rest = rest' := by
  unfold spelledOptions
  constructor
  · intro h
    have hoptions := List.append_cancel_left h
    obtain ⟨hescape, h⟩ := Text.eq_of_append_cons (bar_notMem_keyName _) (bar_notMem_keyName _)
      hoptions
    obtain ⟨hcharset, h⟩ := Text.eq_of_append_cons he.bar_notMem_charsetKey
      he'.bar_notMem_charsetKey (List.append_cancel_left h)
    obtain ⟨hcallables, h⟩ := Text.eq_of_append_cons (bar_notMem_boolText _)
      (bar_notMem_boolText _) (List.append_cancel_left h)
    obtain ⟨hvariables, h⟩ := Text.eq_of_append_cons (bar_notMem_boolText _)
      (bar_notMem_boolText _) (List.append_cancel_left h)
    obtain ⟨hpragmas, h⟩ := Text.eq_of_append_cons (bar_notMem_text _) (bar_notMem_text _)
      (List.append_cancel_left h)
    obtain ⟨hopening, hrest⟩ := Text.eq_of_append_cons he.blank_notMem_opening
      he'.blank_notMem_opening (List.append_cancel_left h)
    rw [String.toList_inj] at hescape hcharset hcallables hvariables hpragmas hopening
    refine ⟨⟨?_, hcharset.symm, (boolText_injective hcallables).symm,
      (boolText_injective hvariables).symm, (text_injective hpragmas).symm, hopening.symm⟩, hrest⟩
    obtain ⟨mode, hmode⟩ := he.html
    obtain ⟨mode', hmode'⟩ := he'.html
    rw [hmode, hmode'] at hescape
    rw [hmode, hmode', keyName_html_injective hescape]
  · rintro ⟨h, rfl⟩
    rw [h.escape, h.charset, h.strictCallables, h.strictVariables, h.pragmas, h.opening]

/-- **Two engines digest the same bytes for two sources just when their options agree but for
the closing delimiters, and these with the sources behind them read the same.** -/
theorem keyBytes_eq_iff {e : Engine σ} {e' : Engine τ} (he : e.Configured) (he' : e'.Configured)
    {source source' : String} :
    keyBytes e.fingerprint source = keyBytes e'.fingerprint source' ↔ e.SameButClosing e' ∧
      e.delimiters.closing.toList ++ '\x00' :: source.toList =
        e'.delimiters.closing.toList ++ '\x00' :: source'.toList := by
  rw [keyBytes_eq_keyBytes_iff, toList_fingerprint, toList_fingerprint, spelledOptions_append,
    spelledOptions_append, spelledOptions_eq_iff he he']

/-- Two inputs with one digest. -/
def Collide (digest : List UInt8 → String) (x y : List UInt8) : Prop :=
  x ≠ y ∧ digest x = digest y

end Engine

end Mustache
